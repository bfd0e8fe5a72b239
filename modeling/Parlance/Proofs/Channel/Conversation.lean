import Parlance.Proofs.Channel.Orderly

namespace Parlance

namespace Stream

variable {text : String} {message : Option String} {rest : Stream}

-- What can be read is what has been written, and empty texts are not written.
theorem read?_write_of_isEmpty (h : text.isEmpty = true) : (fresh.write text).read? = none := by
  rw [write, if_pos h]
  rfl

theorem read?_write (h : ¬text.isEmpty = true) :
    (fresh.write text).read? = some (some text, fresh) := by
  rw [write, if_neg h]
  rfl

theorem read?_write_fresh (h : (fresh.write text).read? = some (message, rest)) :
    message = some text ∧ rest = fresh := by
  by_cases htext : text.isEmpty = true
  · cases (read?_write_of_isEmpty htext).symm.trans h
  · cases (read?_write htext).symm.trans h
    exact ⟨rfl, rfl⟩

end Stream

namespace Connection

variable {c rest : Connection} {message : Option String}

theorem fetch?_eq (h : c.fetch? = some (message, rest)) :
    ∃ requests, c.requests.read? = some (message, requests) ∧ rest = { c with requests } := by
  obtain ⟨⟨m, requests⟩, hread, heq⟩ := Option.map_eq_some_iff.mp h
  cases heq
  exact ⟨requests, hread, rfl⟩

theorem collect?_eq (h : c.collect? = some (message, rest)) :
    ∃ replies, c.replies.read? = some (message, replies) ∧ rest = { c with replies } := by
  obtain ⟨⟨m, replies⟩, hread, heq⟩ := Option.map_eq_some_iff.mp h
  cases heq
  exact ⟨replies, hread, rfl⟩

end Connection

namespace Heap

variable {h : Heap} {ref k : Nat}

theorem connection_dial_of_lt (hk : k < h.connections.size) (ref server : Nat) :
    (h.dial ref server).connection k = h.connection k := by
  simp [connection, dial, Array.getElem?_push, Nat.ne_of_lt hk]

theorem connection_dial_self (h : Heap) (ref server : Nat) :
    (h.dial ref server).connection h.connections.size = .fresh server := by
  simp [connection, dial]

theorem connection_leave_of_ne (hne : (h.client ref).connection ≠ some k) :
    (h.leave ref).connection k = h.connection k := by
  unfold leave
  cases hlink : (h.client ref).connection with
  | none => rfl
  | some l =>
    have hkl : k ≠ l := by
      rintro rfl
      exact hne hlink
    exact connection_onConnection_of_ne hkl _

theorem connection_leave_self (hlink : (h.client ref).connection = some k)
    (hk : k < h.connections.size) : (h.leave ref).connection k = (h.connection k).leave := by
  unfold leave
  rw [hlink]
  exact connection_onConnection_self hk _

end Heap

namespace Channel

-- A request and the call that answers it: the world that the call started in, and its outcome.
structure Exchange where
  send : Nat
  text : String
  start : World
  outcome : Outcome Value

namespace Exchange

-- The text of the value, or nothing if the call failed.
def reply? (x : Exchange) : Option String :=
  x.outcome.reply?

-- The outcome is one that calls of the handler can have.
def Conforms (C : Conduct) (f : Function) (x : Exchange) : Prop :=
  C.outcomes f [.str x.text] x.start x.outcome

-- What happens at the connection for a request. The handler is called once, with the text of
-- the send under the globals, and the send gets what came of that call.
def events (k : Nat) (f : Function) (x : Exchange) : List Event :=
  [.posts x.send k x.text, .invokes k globals f [.str x.text] x.start, .ends k x.outcome,
    .returns x.send k x.reply?]

end Exchange

-- Where the conversation of a client and a server is.
inductive Status where
  | idle
  | asked (i : Nat) (text : String)
  | answering (i : Nat) (text : String) (start : World)
  | finished (x : Exchange)
  | closed
  | ended

namespace Status

-- The send whose request it is about.
def sender? : Status → Option (Nat × String)
  | asked i text | answering i text _ => some (i, text)
  | finished x => some (x.send, x.text)
  | idle | closed | ended => none

-- Whether a client has the connection.
def isOpen : Status → Bool
  | closed | ended => false
  | idle | asked _ _ | answering _ _ _ | finished _ => true

-- What has been written and not been read.
def requests : Status → Stream
  | asked _ text => Stream.fresh.write text
  | closed | ended => Stream.fresh.finish
  | idle | answering _ _ _ | finished _ => .fresh

def replies : Status → Stream
  | finished x => x.reply?.elim Stream.fresh.finish Stream.fresh.write
  | ended => Stream.fresh.finish
  | idle | asked _ _ | answering _ _ _ | closed => .fresh

-- What the server does, whose handler is `f`.
def turn (f : Function) : Status → Turn
  | answering _ text start => .answering f [.str text] start
  | finished x => x.reply?.elim .ended fun _ => .reading
  | ended => .ended
  | idle | asked _ _ | closed => .reading

end Status

-- A conversation, up to where it is: what happens at a connection to a server whose handler
-- is `f`.
inductive Talk (C : Conduct) (k server : Nat) (f : Function) : List Event → Status → Prop
  | dials (i : Nat) : Talk C k server f [.dials i k server] .idle
  | posts {es : List Event} (i : Nat) (text : String) (h : Talk C k server f es .idle) :
    Talk C k server f (es ++ [.posts i k text]) (.asked i text)
  | invokes {es : List Event} {i : Nat} {text : String} (start : World)
    (h : Talk C k server f es (.asked i text)) :
    Talk C k server f (es ++ [.invokes k globals f [.str text] start]) (.answering i text start)
  | ends {es : List Event} (x : Exchange) (hx : x.Conforms C f)
    (h : Talk C k server f es (.answering x.send x.text x.start)) :
    Talk C k server f (es ++ [.ends k x.outcome]) (.finished x)
  | returns {es : List Event} {x : Exchange} {reply : String} (hx : x.reply? = some reply)
    (h : Talk C k server f es (.finished x)) :
    Talk C k server f (es ++ [.returns x.send k (some reply)]) .idle
  | loses {es : List Event} {x : Exchange} (hx : x.reply? = none)
    (h : Talk C k server f es (.finished x)) :
    Talk C k server f (es ++ [.returns x.send k none]) .ended
  | closes {es : List Event} (ref : Nat) (h : Talk C k server f es .idle) :
    Talk C k server f (es ++ [.closes ref (some k)]) .closed
  | departs {es : List Event} (h : Talk C k server f es .closed) :
    Talk C k server f (es ++ [.departs k]) .ended

-- A state in which the conversation at a connection to a server is at a point.
structure Fits (S : State) (k server : Nat) (f : Function) (status : Status) : Prop where
  server : (S.heap.connection k).server = server
  requests : (S.heap.connection k).requests = status.requests
  replies : (S.heap.connection k).replies = status.replies
  turn : S.turns k = status.turn f
  waiting : ∀ i ref text, S.sends i = .waiting ref text k → status.sender? = some (i, text)
  sender : ∀ i text, status.sender? = some (i, text) → ∃ ref, S.sends i = .waiting ref text k
  owner : (∃ ref, (S.heap.client ref).connection = some k) ↔ status.isOpen = true

-- Nothing happens to a connection from one state to the other.
structure Aside (S T : State) (k : Nat) : Prop where
  connection : T.heap.connection k = S.heap.connection k
  turn : T.turns k = S.turns k
  sends : ∀ i ref text, T.sends i = .waiting ref text k ↔ S.sends i = .waiting ref text k
  owner : ∀ ref, (T.heap.client ref).connection = some k ↔ (S.heap.client ref).connection = some k

namespace Fits

variable {S T : State} {k server : Nat} {f : Function} {status : Status}

theorem aside (h : Fits S k server f status) (haside : Aside S T k) :
    Fits T k server f status where
  server := haside.connection ▸ h.server
  requests := haside.connection ▸ h.requests
  replies := haside.connection ▸ h.replies
  turn := haside.turn.trans h.turn
  waiting i ref text := by simpa only [haside.sends] using h.waiting i ref text
  sender i text := by simpa only [haside.sends] using h.sender i text
  owner := by simpa only [haside.owner] using h.owner

end Fits

theorem conversation_append (k : Nat) (es new : List Event) :
    conversation k (es ++ new) = conversation k es ++ conversation k new :=
  List.filter_append _ _

theorem conversation_of_at {k : Nat} {e : Event} (h : e.connection? = some k) :
    conversation k [e] = [e] := by
  simp [conversation, h]

theorem connection?_of_conversation {k : Nat} {e : Event} (h : conversation k [e] ≠ []) :
    e.connection? = some k := by
  simpa [conversation] using h

theorem conversation_eq_nil {k : Nat} {e : Event} :
    conversation k [e] = [] ↔ e.connection? ≠ some k := by
  simp [conversation]

namespace Aside

variable {S : State} {i ref k l : Nat} {phase : Phase}

theorem refl (S : State) (k : Nat) : Aside S S k :=
  ⟨rfl, rfl, fun _ _ _ => .rfl, fun _ => .rfl⟩

theorem asking {T : State} (h : Aside S T k) : Aside S T.asking k :=
  ⟨h.connection, h.turn, h.sends, h.owner⟩

-- A send that has nothing to do with a connection.
theorem send {T : State} (h : Aside S T k) (hbefore : ∀ ref text, T.sends i ≠ .waiting ref text k)
    (hafter : ∀ ref text, phase ≠ .waiting ref text k) : Aside S (T.send i phase) k := by
  refine ⟨h.connection, h.turn, fun j ref text => ?_, h.owner⟩
  rw [← h.sends]
  by_cases hj : j = i
  · subst hj
    simp only [State.sends_send, update_self]
    exact ⟨fun heq => absurd heq (hafter ref text), fun heq => absurd heq (hbefore ref text)⟩
  · simp only [State.sends_send, update_of_ne hj]

theorem turn_of_ne {T : State} {turn : Turn} (h : Aside S T k) (hne : k ≠ l) :
    Aside S (T.turn l turn) k :=
  ⟨h.connection, (update_of_ne hne T.turns turn).trans h.turn, h.sends, h.owner⟩

theorem onConnection {T : State} (h : Aside S T k) (f : Connection → Connection) (hne : k ≠ l) :
    Aside S (T.onHeap (·.onConnection l f)) k :=
  ⟨(Heap.connection_onConnection_of_ne hne f).trans h.connection, h.turn, h.sends, h.owner⟩

theorem leave {T : State} (h : Aside S T k) (hne : (T.heap.client ref).connection ≠ some k) :
    Aside S (T.onHeap (·.leave ref)) k := by
  refine ⟨(Heap.connection_leave_of_ne hne).trans h.connection, h.turn, h.sends, fun other => ?_⟩
  rw [← h.owner other]
  rw [State.heap_onHeap, Heap.linked_leave]
  split
  · next hother => simp [hother, hne]
  · rfl

theorem hold {T : State} (h : Aside S T k) (ref : Nat) (held : Bool) :
    Aside S (T.onHeap (·.hold ref held)) k := by
  refine ⟨h.connection, h.turn, h.sends, fun other => ?_⟩
  rw [← h.owner other]
  exact iff_of_eq (congrArg (· = some k) (T.heap.connection_hold ref held other))

end Aside

theorem Aside.ends {S : State} {k l : Nat} (hne : k ≠ l) (reply : Option String) :
    Aside S (S.ends l reply) k := by
  cases reply <;> exact ((Aside.refl S k).onConnection _ hne).turn_of_ne hne

variable {C : Conduct} {S T : State} {new : List Event}

-- What happens at one connection does not touch another.
theorem Step.aside (ho : Orderly S) (hstep : Step C S new T) {k : Nat}
    (hk : k < S.heap.connections.size) (hnew : conversation k new = []) : Aside S T k := by
  have hrefl := Aside.refl S k
  cases hstep with
  | changes happart =>
    refine ⟨?_, rfl, fun _ _ _ => .rfl, fun ref => ?_⟩
    · exact congrArg (fun cs : Array Connection => cs.getD k _) happart.connections
    · simp only [State.heap, Heap.client, happart.clients]
  | opens endpoint =>
    refine ⟨rfl, rfl, fun _ _ _ => .rfl, fun ref => ?_⟩
    exact iff_of_eq (congrArg (· = some k) (S.heap.linked_addClient endpoint ref))
  | offers s => exact ⟨rfl, rfl, fun _ _ _ => .rfl, fun _ => .rfl⟩
  | listens haccepted => exact ⟨rfl, rfl, fun _ _ _ => .rfl, fun _ => .rfl⟩
  | begins text hidle href hfree =>
    exact (hrefl.hold _ true).send (by simp [hidle]) (by simp)
  | refused hsend hnone hconnect =>
    exact (hrefl.asking.hold _ false).send (by simp [hsend]) (by simp)
  | dials hsend hnone hconnect =>
    next i ref server text =>
    have href := (ho.active i ref (congrArg Phase.client? hsend)).1
    refine ⟨Heap.connection_dial_of_lt hk ref server, rfl, fun _ _ _ => .rfl, fun other => ?_⟩
    rw [State.heap_onHeap, State.heap_asking, Heap.linked_dial href]
    split
    · next hother => simp [hother, hnone, Nat.ne_of_gt hk]
    · rfl
  | posts hsend hsome =>
    next i ref l text =>
    have hne : l ≠ k := fun heq => conversation_eq_nil.mp hnew (congrArg some heq)
    refine (hrefl.onConnection _ hne.symm).send (by simp [hsend]) ?_
    simp [hne]
  | invokes hl hturn hfetch hf =>
    have hne := fun heq => conversation_eq_nil.mp hnew (congrArg some heq)
    exact (hrefl.onConnection _ (Ne.symm hne)).turn_of_ne (Ne.symm hne)
  | ends hl hturn hr hworld =>
    exact .ends (fun heq => conversation_eq_nil.mp hnew (congrArg some heq.symm)) _
  | departs hl hturn hfetch =>
    have hne := fun heq => conversation_eq_nil.mp hnew (congrArg some heq)
    exact (hrefl.onConnection _ (Ne.symm hne)).turn_of_ne (Ne.symm hne)
  | returns hsend hcollect =>
    next i ref l text reply c =>
    have hne : l ≠ k := fun heq => conversation_eq_nil.mp hnew (congrArg some heq)
    refine ((hrefl.onConnection (fun _ => c) hne.symm).hold ref false).send ?_ (by simp)
    simp [hsend, hne]
  | loses hsend hcollect =>
    next i ref l text c =>
    have hne : l ≠ k := fun heq => conversation_eq_nil.mp hnew (congrArg some heq)
    have hlink : (S.heap.client ref).connection ≠ some k := by
      simp [ho.waiting i ref text l hsend, hne]
    have hconn := hrefl.onConnection (fun _ => c) hne.symm
    refine ((hconn.leave hlink).hold ref false).send ?_ (by simp)
    simp [hsend, hne]
  | closes hfree => exact hrefl.leave (conversation_eq_nil.mp hnew)

-- The sends that still wait when one of them is over waited before, and are others.
theorem eq_of_update_done {sends : Nat → Phase} {i j ref k : Nat} {text : String}
    (h : update sends i .done j = .waiting ref text k) :
    j ≠ i ∧ sends j = .waiting ref text k := by
  by_cases hji : j = i
  · rw [hji, update_self] at h
    cases h
  · exact ⟨hji, update_of_ne hji sends .done ▸ h⟩

-- A connection that its client has given up has no other client.
theorem Orderly.unlinked_leave (ho : Orderly S) {ref k : Nat}
    (hsome : (S.heap.client ref).connection = some k) (other : Nat) :
    ((S.heap.leave ref).client other).connection ≠ some k := by
  rw [Heap.linked_leave]
  split
  · simp
  · next hne => exact fun hother => hne (ho.owner other ref k hother hsome)

theorem Orderly.not_waiting_of_started (ho : Orderly S) {i ref : Nat} {text : String}
    (hsend : S.sends i = .started ref text) {k : Nat} (j : Nat) (message : String) :
    S.sends j ≠ .waiting ref message k := by
  intro hj
  have heq := ho.alone j i ref (congrArg Phase.client? hj) (congrArg Phase.client? hsend)
  rw [heq, hsend] at hj
  cases hj

theorem Orderly.not_waiting_of_free (ho : Orderly S) {ref : Nat}
    (hfree : (S.heap.client ref).held = false) {k : Nat} (j : Nat) (message : String) :
    S.sends j ≠ .waiting ref message k := by
  intro hj
  have hheld := (ho.active j ref (congrArg Phase.client? hj)).2
  rw [hfree] at hheld
  cases hheld

namespace Fits

variable {i ref k server : Nat} {f : Function} {text : String} {status : Status}

-- There is no request at a connection whose client waits for nothing.
theorem eq_idle (h : Fits S k server f status) (ho : Orderly S)
    (hsome : (S.heap.client ref).connection = some k)
    (hno : ∀ i text, S.sends i ≠ .waiting ref text k) : status = .idle := by
  have hopen := h.owner.mp ⟨ref, hsome⟩
  have hsender : ∀ j message, status.sender? ≠ some (j, message) := by
    intro j message hs
    obtain ⟨other, hother⟩ := h.sender j message hs
    have heq := ho.owner other ref k (ho.waiting j other message k hother) hsome
    exact hno j message (heq ▸ hother)
  cases status with
  | idle => rfl
  | asked j message | answering j message _ => exact absurd rfl (hsender j message)
  | finished x => exact absurd rfl (hsender x.send x.text)
  | closed | ended => cases hopen

-- What can be read, and what the server does, tell where a conversation is.
theorem eq_asked (h : Fits S k server f status) (hturn : S.turns k = .reading) {c : Connection}
    (hfetch : (S.heap.connection k).fetch? = some (some text, c)) :
    (∃ i, status = .asked i text) ∧ c = { S.heap.connection k with requests := .fresh } := by
  obtain ⟨rest, hread, rfl⟩ := Connection.fetch?_eq hfetch
  rw [h.requests] at hread
  rw [h.turn] at hturn
  cases status with
  | asked i message =>
    obtain ⟨heq, rfl⟩ := Stream.read?_write_fresh hread
    cases heq
    exact ⟨⟨i, rfl⟩, rfl⟩
  | idle | finished _ | closed => cases hread
  | answering _ _ _ | ended => cases hturn

theorem eq_closed (h : Fits S k server f status) (hturn : S.turns k = .reading) {c : Connection}
    (hfetch : (S.heap.connection k).fetch? = some (none, c)) :
    status = .closed ∧ c = S.heap.connection k := by
  obtain ⟨rest, hread, rfl⟩ := Connection.fetch?_eq hfetch
  have hrequests := h.requests
  rw [h.requests] at hread
  rw [h.turn] at hturn
  cases status with
  | asked i message =>
    obtain ⟨heq, -⟩ := Stream.read?_write_fresh hread
    cases heq
  | idle | finished _ => cases hread
  | closed =>
    cases hread
    rw [← hrequests]
    exact ⟨rfl, rfl⟩
  | answering _ _ _ | ended => cases hturn

theorem eq_answering (h : Fits S k server f status) {g : Function} {args : List Value}
    {start : World} (hturn : S.turns k = .answering g args start) :
    ∃ i text, status = .answering i text start ∧ g = f ∧ args = [.str text] := by
  rw [h.turn] at hturn
  cases status with
  | answering i text _ =>
    cases hturn
    exact ⟨i, text, rfl, rfl, rfl⟩
  | finished x =>
    simp only [Status.turn] at hturn
    cases hreply : x.reply? <;> rw [hreply] at hturn <;> cases hturn
  | idle | asked _ _ | closed | ended => cases hturn

-- A send that waits and has something to read has had its exchange.
theorem eq_over (h : Fits S k server f status) (hsend : S.sends i = .waiting ref text k)
    {c : Connection} {reply : Option String}
    (hcollect : (S.heap.connection k).collect? = some (reply, c)) :
    ∃ x : Exchange, status = .finished x ∧ x.send = i ∧ x.text = text ∧ x.reply? = reply := by
  obtain ⟨rest, hread, rfl⟩ := Connection.collect?_eq hcollect
  have hsender := h.waiting i ref text hsend
  rw [h.replies] at hread
  cases status with
  | finished x =>
    cases hsender
    refine ⟨x, rfl, rfl, rfl, ?_⟩
    simp only [Status.replies] at hread
    cases hreply : x.reply? with
    | some written =>
      rw [hreply] at hread
      exact (Stream.read?_write_fresh hread).1.symm
    | none =>
      rw [hreply] at hread
      cases hread
      rfl
  | idle | asked _ _ | answering _ _ _ | closed => cases hread
  | ended => cases hsender

-- A new connection. Its number has not been used.
theorem dials (ho : Orderly S) (hsend : S.sends i = .started ref text) (server : Nat)
    (f : Function) (hturn : S.turns S.heap.connections.size = .reading) :
    Fits (S.onHeap (·.dial ref server)) S.heap.connections.size server f .idle := by
  have href := (ho.active i ref (congrArg Phase.client? hsend)).1
  have hconnection := S.heap.connection_dial_self ref server
  have hno : ∀ j other message,
      S.sends j ≠ .waiting other message S.heap.connections.size := by
    intro j other message hj
    exact Nat.lt_irrefl _ (ho.range other _ (ho.waiting j other message _ hj))
  constructor
  · rw [State.heap_onHeap, hconnection]
    rfl
  · rw [State.heap_onHeap, hconnection]
    rfl
  · rw [State.heap_onHeap, hconnection]
    rfl
  · exact hturn
  · exact fun j other message hj => absurd hj (hno j other message)
  · exact fun j message hj => by cases hj
  · refine iff_of_true ⟨ref, ?_⟩ rfl
    rw [State.heap_onHeap, Heap.linked_dial href, if_pos rfl]

theorem posts (h : Fits S k server f .idle) (hk : k < S.heap.connections.size)
    (i : Nat) (ref : Nat) (text : String) :
    Fits ((S.onHeap (·.onConnection k (·.post text))).send i (.waiting ref text k)) k server f
      (.asked i text) := by
  have hconnection := Heap.connection_onConnection_self hk (·.post text)
  constructor
  · rw [State.heap_send, State.heap_onHeap, hconnection]
    exact h.server
  · rw [State.heap_send, State.heap_onHeap, hconnection]
    exact congrArg (Stream.write · text) h.requests
  · rw [State.heap_send, State.heap_onHeap, hconnection]
    exact h.replies
  · exact h.turn
  · intro j other message hj
    simp only [State.sends_send, State.sends_onHeap, update] at hj
    split at hj
    · next hji =>
      cases hj
      rw [hji]
      rfl
    · cases h.waiting j other message hj
  · rintro j message ⟨⟩
    exact ⟨ref, update_self _ _ _⟩
  · exact h.owner

-- The server reads or writes, and the request stays the same.
theorem converses (h : Fits S k server f status) (next : Status)
    (hk : k < S.heap.connections.size) {g : Connection → Connection}
    (hserver : (g (S.heap.connection k)).server = (S.heap.connection k).server)
    (hrequests : (g (S.heap.connection k)).requests = next.requests)
    (hreplies : (g (S.heap.connection k)).replies = next.replies)
    (hsender : next.sender? = status.sender?) (hopen : next.isOpen = status.isOpen) :
    Fits ((S.onHeap (·.onConnection k g)).turn k (next.turn f)) k server f next := by
  have hconnection := Heap.connection_onConnection_self hk g
  constructor
  · rw [State.heap_turn, State.heap_onHeap, hconnection, hserver, h.server]
  · rw [State.heap_turn, State.heap_onHeap, hconnection, hrequests]
  · rw [State.heap_turn, State.heap_onHeap, hconnection, hreplies]
  · exact update_self _ _ _
  · rw [hsender]
    exact h.waiting
  · rw [hsender]
    exact h.sender
  · rw [hopen]
    exact h.owner

-- The server says what came of a call.
theorem ends {x : Exchange} (h : Fits S k server f (.answering x.send x.text x.start))
    (hk : k < S.heap.connections.size) : Fits (S.ends k x.reply?) k server f (.finished x) := by
  cases hreply : x.reply? with
  | some reply =>
    have hturn : (Status.finished x).turn f = .reading := by rw [Status.turn, hreply, Option.elim]
    rw [State.ends, ← hturn]
    refine h.converses (.finished x) hk rfl h.requests ?_ rfl rfl
    rw [Status.replies, hreply]
    exact congrArg (Stream.write · reply) h.replies
  | none =>
    have hturn : (Status.finished x).turn f = .ended := by rw [Status.turn, hreply, Option.elim]
    rw [State.ends, ← hturn]
    refine h.converses (.finished x) hk rfl h.requests ?_ rfl rfl
    rw [Status.replies, hreply]
    exact congrArg Stream.finish h.replies

-- The send that the reply is for takes it.
theorem returns {x : Exchange} {reply : String} (h : Fits S k server f (.finished x))
    (hx : x.reply? = some reply) (hk : k < S.heap.connections.size) {c : Connection}
    (hcollect : (S.heap.connection k).collect? = some (some reply, c)) :
    Fits ((S.onHeap fun h => (h.onConnection k fun _ => c).hold ref false).send x.send .done) k
      server f .idle := by
  obtain ⟨rest, hread, rfl⟩ := Connection.collect?_eq hcollect
  rw [h.replies, Status.replies, hx] at hread
  obtain ⟨-, rfl⟩ := Stream.read?_write_fresh hread
  have hturn := h.turn
  rw [Status.turn, hx] at hturn
  have hconnection := Heap.connection_onConnection_self hk
    fun _ => { S.heap.connection k with replies := Stream.fresh }
  constructor
  · exact (congrArg Connection.server hconnection).trans h.server
  · exact (congrArg Connection.requests hconnection).trans h.requests
  · exact congrArg Connection.replies hconnection
  · exact hturn
  · intro j other message hj
    obtain ⟨hne, hj⟩ := eq_of_update_done hj
    cases h.waiting j other message hj
    exact absurd rfl hne
  · exact fun j message hj => by cases hj
  · simp only [State.heap_send, State.heap_onHeap, Heap.connection_hold]
    exact h.owner

-- The send notices that the server has hung up, and its client has no connection any more.
theorem loses {x : Exchange} (h : Fits S k server f (.finished x)) (hx : x.reply? = none)
    (ho : Orderly S) (hsend : S.sends x.send = .waiting ref text k) {c : Connection}
    (hcollect : (S.heap.connection k).collect? = some (none, c)) :
    Fits ((S.onHeap fun h => ((h.onConnection k fun _ => c).leave ref).hold ref false).send x.send
      .done) k server f .ended := by
  have hsome := ho.waiting x.send ref text k hsend
  have hk := ho.range ref k hsome
  obtain ⟨rest, hread, rfl⟩ := Connection.collect?_eq hcollect
  rw [h.replies, Status.replies, hx] at hread
  cases hread
  have hturn := h.turn
  rw [Status.turn, hx] at hturn
  -- The client gives up a connection at which nothing is left to be read.
  let read := S.onHeap (·.onConnection k fun _ =>
    { S.heap.connection k with replies := Stream.fresh.finish })
  have hread : read.heap.connection k =
      { S.heap.connection k with replies := Stream.fresh.finish } :=
    Heap.connection_onConnection_self hk _
  have horder : Orderly read :=
    ho.congr rfl rfl (fun _ => rfl) (S.heap.size_connections_onConnection k _)
  have hleft : (read.heap.leave ref).connection k = (read.heap.connection k).leave :=
    Heap.connection_leave_self hsome (horder.range ref k hsome)
  constructor
  · refine (congrArg Connection.server hleft).trans ?_
    rw [hread]
    exact h.server
  · refine (congrArg Connection.requests hleft).trans ?_
    rw [hread]
    exact congrArg Stream.finish h.requests
  · refine (congrArg Connection.replies hleft).trans ?_
    rw [hread]
    rfl
  · exact hturn
  · intro j other message hj
    obtain ⟨hne, hj⟩ := eq_of_update_done hj
    cases h.waiting j other message hj
    exact absurd rfl hne
  · exact fun j message hj => by cases hj
  · refine iff_of_false ?_ (by simp [Status.isOpen])
    rintro ⟨other, hother⟩
    rw [State.heap_send, State.heap_onHeap, Heap.connection_hold] at hother
    exact horder.unlinked_leave hsome other hother

theorem closes (h : Fits S k server f .idle) (ho : Orderly S)
    (hsome : (S.heap.client ref).connection = some k) :
    Fits (S.onHeap (·.leave ref)) k server f .closed := by
  have hk := ho.range ref k hsome
  have hconnection := Heap.connection_leave_self hsome hk
  constructor
  · rw [State.heap_onHeap, hconnection]
    exact h.server
  · rw [State.heap_onHeap, hconnection]
    exact congrArg Stream.finish h.requests
  · rw [State.heap_onHeap, hconnection]
    exact h.replies
  · exact h.turn
  · exact h.waiting
  · exact h.sender
  · refine iff_of_false ?_ (by simp [Status.isOpen])
    rintro ⟨other, hother⟩
    exact ho.unlinked_leave hsome other hother

end Fits

-- One step of a conversation, or none.
theorem Talk.step {k server : Nat} {f : Function} {es : List Event} {status : Status}
    (ho : Orderly S) (hstep : Step C S new T) (hk : k < S.heap.connections.size)
    (hf : (S.heap.server server).handler = f)
    (htalk : Talk C k server f es status) (hfits : Fits S k server f status) :
    ∃ next, Talk C k server f (es ++ conversation k new) next ∧ Fits T k server f next := by
  by_cases hnew : conversation k new = []
  · rw [hnew, List.append_nil]
    exact ⟨status, htalk, hfits.aside (hstep.aside ho hk hnew)⟩
  · cases hstep with
    | changes | opens | offers | listens | begins | refused => exact absurd rfl hnew
    | dials hsend hnone hconnect =>
      refine absurd (conversation_eq_nil.mpr ?_) hnew
      exact fun heq => Nat.ne_of_lt hk (Option.some.inj heq).symm
    | posts hsend hsome =>
      next i ref l text =>
      obtain rfl : l = k := Option.some.inj (connection?_of_conversation hnew)
      obtain rfl := hfits.eq_idle ho hsome (ho.not_waiting_of_started hsend)
      rw [conversation_of_at rfl]
      exact ⟨_, .posts i text htalk, hfits.posts hk i ref text⟩
    | invokes hl hturn hfetch hcalled =>
      next l g text c =>
      obtain rfl : l = k := Option.some.inj (connection?_of_conversation hnew)
      obtain ⟨⟨i, rfl⟩, rfl⟩ := hfits.eq_asked hturn hfetch
      rw [hfits.server, hf] at hcalled
      rw [conversation_of_at rfl, ← hcalled]
      refine ⟨_, .invokes _ htalk, ?_⟩
      exact hfits.converses (.answering i text _) hk rfl rfl hfits.replies rfl rfl
    | ends hl hturn hr hworld =>
      next l g args start r =>
      obtain rfl : l = k := Option.some.inj (connection?_of_conversation hnew)
      obtain ⟨i, text, rfl, rfl, rfl⟩ := hfits.eq_answering hturn
      rw [conversation_of_at rfl]
      exact ⟨_, .ends ⟨i, text, start, r⟩ hr htalk, Fits.ends (x := ⟨i, text, start, r⟩) hfits hk⟩
    | departs hl hturn hfetch =>
      next l c =>
      obtain rfl : l = k := Option.some.inj (connection?_of_conversation hnew)
      obtain ⟨rfl, rfl⟩ := hfits.eq_closed hturn hfetch
      rw [conversation_of_at rfl]
      refine ⟨_, .departs htalk, hfits.converses .ended hk rfl hfits.requests ?_ rfl rfl⟩
      exact congrArg Stream.finish hfits.replies
    | returns hsend hcollect =>
      next i ref l text reply c =>
      obtain rfl : l = k := Option.some.inj (connection?_of_conversation hnew)
      obtain ⟨x, rfl, rfl, rfl, hx⟩ := hfits.eq_over hsend hcollect
      rw [conversation_of_at rfl]
      exact ⟨_, .returns hx htalk, hfits.returns hx hk hcollect⟩
    | loses hsend hcollect =>
      next i ref l text c =>
      obtain rfl : l = k := Option.some.inj (connection?_of_conversation hnew)
      obtain ⟨x, rfl, rfl, rfl, hx⟩ := hfits.eq_over hsend hcollect
      rw [conversation_of_at rfl]
      exact ⟨_, .loses hx htalk, hfits.loses hx ho hsend hcollect⟩
    | closes hfree =>
      next ref =>
      have hsome : (S.heap.client ref).connection = some k := connection?_of_conversation hnew
      obtain rfl := hfits.eq_idle ho hsome (ho.not_waiting_of_free hfree)
      rw [hsome, conversation_of_at rfl]
      exact ⟨_, .closes ref htalk, hfits.closes ho hsome⟩

end Channel

end Parlance
