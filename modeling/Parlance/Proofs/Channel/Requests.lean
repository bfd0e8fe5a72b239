import Parlance.Proofs.Channel.Turns

namespace Parlance

namespace Heap

theorem endpoint_hold (h : Heap) (ref : Nat) (held : Bool) (other : Nat) :
    ((h.hold ref held).client other).endpoint = (h.client other).endpoint :=
  onClient_congr (p := Client.endpoint) (f := fun c => { c with held }) (fun _ => rfl) h ref other

theorem endpoint_dial (h : Heap) (ref server other : Nat) :
    ((h.dial ref server).client other).endpoint = (h.client other).endpoint :=
  onClient_congr (p := Client.endpoint) (f := fun c => { c with connection := h.connections.size })
    (fun _ => rfl) h ref other

theorem endpoint_leave (h : Heap) (ref other : Nat) :
    ((h.leave ref).client other).endpoint = (h.client other).endpoint :=
  leave_congr (p := Client.endpoint) (fun _ => rfl) h ref other

-- The new connection of a client is to the server that it has reached.
theorem linked_dial_self {h : Heap} {ref : Nat} (href : ref < h.clients.size) (server : Nat) :
    ((h.dial ref server).client ref).connection = some h.connections.size ∧
      ((h.dial ref server).connection h.connections.size).server = server :=
  ⟨(linked_dial href server ref).trans (if_pos rfl),
    congrArg Connection.server (h.connection_dial_self ref server)⟩

end Heap

namespace Channel

open Eval

variable {C : Conduct} {es : List Event} {S T U V : State} {ev ev' : Evaluators}
  {i ref k server : Nat} {f : Function} {text : String}

-- Clients are there to stay, and so are their addresses.
theorem Step.endpoint_eq {new : List Event} (hstep : Step C S new T)
    (href : ref < S.heap.clients.size) :
    ref < T.heap.clients.size ∧ (T.heap.client ref).endpoint = (S.heap.client ref).endpoint := by
  cases hstep with
  | changes happart =>
    have hclients : ∀ t : World, t.heap.clients = S.heap.clients →
        ref < t.heap.clients.size ∧ (t.heap.client ref).endpoint = (S.heap.client ref).endpoint :=
      fun t ht => ⟨ht ▸ href, congrArg (fun cs : Array Client => (cs.getD ref _).endpoint) ht⟩
    exact hclients _ happart.clients
  | opens endpoint =>
    refine ⟨?_, congrArg Client.endpoint (Heap.client_addClient_of_lt href endpoint)⟩
    exact Nat.lt_of_lt_of_eq (Nat.lt_succ_of_lt href) (Array.size_push _).symm
  | ends =>
    exact ⟨Nat.lt_of_lt_of_eq href (S.size_clients_ends _ _).symm,
      congrArg Client.endpoint (S.client_ends _ _ ref)⟩
  | offers | listens | posts | invokes | departs => exact ⟨href, rfl⟩
  | begins | refused | returns =>
    exact ⟨Nat.lt_of_lt_of_eq href Array.size_modify.symm, Heap.endpoint_hold _ _ _ ref⟩
  | dials =>
    exact ⟨Nat.lt_of_lt_of_eq href Array.size_modify.symm, Heap.endpoint_dial _ _ _ ref⟩
  | loses =>
    refine ⟨?_, (Heap.endpoint_hold _ _ _ ref).trans (Heap.endpoint_leave _ _ ref)⟩
    rw [State.heap_send, State.heap_onHeap, Heap.hold, Heap.size_clients_onClient,
      Heap.size_clients_leave]
    exact href
  | closes =>
    exact ⟨Nat.lt_of_lt_of_eq href (Heap.size_clients_leave _ _).symm,
      Heap.endpoint_leave _ _ ref⟩

theorem Steps.endpoint_eq (hsteps : Steps C S es T) (href : ref < S.heap.clients.size) :
    ref < T.heap.clients.size ∧ (T.heap.client ref).endpoint = (S.heap.client ref).endpoint := by
  induction hsteps with
  | refl => exact ⟨href, rfl⟩
  | step _ hstep ih =>
    obtain ⟨hlt, heq⟩ := ih
    obtain ⟨hlt', heq'⟩ := hstep.endpoint_eq hlt
    exact ⟨hlt', heq'.trans heq⟩

-- There are always sends that have not begun.
theorem exists_unsent (es : List Event) : ∃ bound, ∀ i, bound ≤ i → sending i es = [] := by
  induction es with
  | nil => exact ⟨0, fun _ _ => rfl⟩
  | cons e es ih =>
    obtain ⟨bound, hbound⟩ := ih
    refine ⟨max bound (e.send?.elim 0 Nat.succ), fun i hi => ?_⟩
    have hother : e.send? ≠ some i := by
      intro he
      rw [he] at hi
      exact Nat.lt_irrefl i (Nat.le_trans (Nat.le_max_right _ _) hi)
    have htail := hbound i (Nat.le_trans (Nat.le_max_left _ _) hi)
    have hcons := sending_append i [e] es
    rw [sending_eq_nil.mpr hother, htail] at hcons
    exact hcons

theorem Run.exists_idle (h : Run C es S) : ∃ i, S.sends i = .idle := by
  obtain ⟨i, hi⟩ := exists_unsent es
  have hlife := h.life i
  rw [hi i (Nat.le_refl i)] at hlife
  exact ⟨i, hlife.eq_idle⟩

theorem update_update {α : Type} (f : Nat → α) (i : Nat) (a b : α) :
    update (update f i a) i b = update f i b := by
  funext j
  by_cases hj : j = i
  · rw [hj, update_self, update_self]
  · rw [update_of_ne hj, update_of_ne hj, update_of_ne hj]

-- A send that was not there is on its way, and all else is as it was.
structure Begun (S T : State) (i : Nat) (phase : Phase) : Prop where
  idle : S.sends i = .idle
  sends : T.sends = update S.sends i phase
  turns : T.turns = S.turns

namespace Begun

variable {phase : Phase}

theorem send (h : Begun S T i phase) (next : Phase) (f : Heap → Heap) :
    Begun S ((T.onHeap f).send i next) i next where
  idle := h.idle
  sends := by rw [State.sends_send, State.sends_onHeap, h.sends, update_update]
  turns := h.turns

theorem phase_eq (h : Begun S T i phase) : T.sends i = phase := by
  rw [h.sends, update_self]

-- The send is over, and what has begun since as well.
theorem resumes (h : Begun S T i phase) (hresumes : T.Resumes U)
    (hsends : V.sends = update U.sends i .done) (hturns : V.turns = U.turns) : S.Resumes V where
  sends j hj := by
    have hne : j ≠ i := by
      rintro rfl
      exact hj h.idle
    have heq : T.sends j = S.sends j := by rw [h.sends, update_of_ne hne]
    rw [hsends, update_of_ne hne, hresumes.sends j (heq ▸ hj), heq]
  idle j hj := by
    rw [hsends]
    by_cases hne : j = i
    · rw [hne, update_self, Phase.client?]
    · rw [update_of_ne hne]
      refine hresumes.idle j ?_
      rw [h.sends, update_of_ne hne, hj]
  turns l f args start hl := by
    rw [hturns, hresumes.turns l f args start (h.turns ▸ hl), h.turns]

end Begun

-- A client that has a connection keeps it. Another one gets one, or is told why not.
section Connect

theorem connected_of_linked {w : World} (h : (w.heap.client ref).connection = some k) :
    connected ref w = .ok k w := by
  rw [connected, Exec.bind_apply, Exec.get_apply]
  simp only [h]
  rfl

variable {w : World} (hnone : (w.heap.client ref).connection = none)

include hnone

theorem connected_of_reached
    (h : w.options.host.network.connect w.asked w.listeners (w.heap.client ref).endpoint =
      .ok server) :
    connected ref w = .ok w.heap.connections.size
      { w with asked := w.asked + 1, heap := w.heap.dial ref server } := by
  rw [connected, Exec.bind_apply, Exec.get_apply]
  simp only [hnone, Exec.bind_apply, Exec.ask_apply, h]
  rfl

theorem connected_of_refused {reason : String}
    (h : w.options.host.network.connect w.asked w.listeners (w.heap.client ref).endpoint =
      .error reason) :
    connected ref w =
      .error (.fault (.runtime (.cannotConnect (w.heap.client ref).endpoint.text reason)))
        { w with asked := w.asked + 1 } := by
  rw [connected, Exec.bind_apply, Exec.get_apply]
  simp only [hnone, Exec.bind_apply, Exec.ask_apply, h]
  rfl

end Connect

-- A send takes a client that is free, and connects it if it has to.
section Begin

variable (hidle : S.sends i = .idle) (href : ref < S.heap.clients.size)
  (hfree : (S.heap.client ref).held = false)

include hidle href hfree

theorem begins_linked (hsome : (S.heap.client ref).connection = some k) (text : String) :
    ∃ T, connected ref (S.world.hold ref true) = .ok k T.world ∧
      Steps C S [.begins i ref text (some k)] T ∧ Begun S T i (.started ref text) ∧
      (T.heap.client ref).connection = some k := by
  have hbegins := Step.begins (C := C) text hidle href hfree
  have hlink := (S.heap.connection_hold ref true ref).trans hsome
  rw [hsome] at hbegins
  exact ⟨_, connected_of_linked hlink, .single hbegins, ⟨hidle, rfl, rfl⟩, hlink⟩

variable (hnone : (S.heap.client ref).connection = none)

include hnone

theorem begins_dialled (text : String)
    (hconnect : S.network.connect S.world.asked S.world.listeners (S.heap.client ref).endpoint =
      .ok server) :
    ∃ k T, connected ref (S.world.hold ref true) = .ok k T.world ∧
      Steps C S [.begins i ref text none, .dials i k server] T ∧
      Begun S T i (.started ref text) ∧ (T.heap.client ref).connection = some k ∧
      (T.heap.connection k).server = server := by
  let B := (S.onHeap (·.hold ref true)).send i (.started ref text)
  have hbegins : Step C S [.begins i ref text (S.heap.client ref).connection] B :=
    .begins text hidle href hfree
  have hlink : (B.heap.client ref).connection = none :=
    (S.heap.connection_hold ref true ref).trans hnone
  have hreached : B.network.connect B.world.asked B.world.listeners
      (B.heap.client ref).endpoint = .ok server := S.heap.endpoint_hold ref true ref ▸ hconnect
  obtain ⟨hsome, hserver⟩ := Heap.linked_dial_self (hbegins.endpoint_eq href).1 server
  rw [hnone] at hbegins
  exact ⟨B.heap.connections.size, B.asking.onHeap (·.dial ref server),
    connected_of_reached hlink hreached,
    (Steps.single hbegins).step (.dials (update_self _ _ _) hlink hreached), ⟨hidle, rfl, rfl⟩,
    hsome, hserver⟩

theorem begins_refused (text : String) {reason : String}
    (hconnect : S.network.connect S.world.asked S.world.listeners (S.heap.client ref).endpoint =
      .error reason) :
    ∃ u T, connected ref (S.world.hold ref true) =
        .error (.fault (.runtime (.cannotConnect (S.heap.client ref).endpoint.text reason))) u ∧
      T.world = u.hold ref false ∧
      Steps C S [.begins i ref text none, .refused i reason] T ∧ S.Resumes T := by
  let B := (S.onHeap (·.hold ref true)).send i (.started ref text)
  have hbegins : Step C S [.begins i ref text (S.heap.client ref).connection] B :=
    .begins text hidle href hfree
  have hbegun : Begun S B i (.started ref text) := ⟨hidle, rfl, rfl⟩
  have hlink : (B.heap.client ref).connection = none :=
    (S.heap.connection_hold ref true ref).trans hnone
  have hendpoint : (B.heap.client ref).endpoint = (S.heap.client ref).endpoint :=
    S.heap.endpoint_hold ref true ref
  have hunreached : B.network.connect B.world.asked B.world.listeners
      (B.heap.client ref).endpoint = .error reason := hendpoint ▸ hconnect
  rw [hnone] at hbegins
  refine ⟨B.asking.world, (B.asking.onHeap (·.hold ref false)).send i .done, ?_, rfl,
    (Steps.single hbegins).step (.refused hbegun.phase_eq hlink hunreached),
    hbegun.resumes (.of_eq rfl rfl) rfl rfl⟩
  rw [← hendpoint]
  exact connected_of_refused hlink hunreached

end Begin

-- What comes of it when a send connects the client that it has taken.
inductive Opening (C : Conduct) (S : State) (ref : Nat) (text : String) : Outcome Nat → Prop
  | refused {i : Nat} {reason : String} {u : World} {T : State}
    (hnone : (S.heap.client ref).connection = none)
    (hconnect : S.network.connect S.world.asked S.world.listeners (S.heap.client ref).endpoint =
      .error reason)
    (hworld : T.world = u.hold ref false)
    (hsteps : Steps C S [.begins i ref text none, .refused i reason] T) (hresumes : S.Resumes T) :
    Opening C S ref text
      (.error (.fault (.runtime (.cannotConnect (S.heap.client ref).endpoint.text reason))) u)
  | connected {i k : Nat} {dialled : List Event} {T : State}
    (hsteps : Steps C S (.begins i ref text (S.heap.client ref).connection :: dialled) T)
    (hbegun : Begun S T i (.started ref text)) (hsome : (T.heap.client ref).connection = some k)
    (hdialled : (S.heap.client ref).connection = some k ∧ dialled = [] ∨
      (S.heap.client ref).connection = none ∧
        dialled = [.dials i k (T.heap.connection k).server]) :
    Opening C S ref text (.ok k T.world)

theorem Run.opening (h : Run C es S) (href : ref < S.heap.clients.size)
    (hfree : (S.heap.client ref).held = false) (text : String) :
    Opening C S ref text (connected ref (S.world.hold ref true)) := by
  obtain ⟨i, hidle⟩ := h.exists_idle
  cases hlink : (S.heap.client ref).connection with
  | some k =>
    obtain ⟨T, hconnected, hsteps, hbegun, hsome⟩ :=
      begins_linked (C := C) hidle href hfree hlink text
    rw [hconnected]
    exact .connected (hlink ▸ hsteps) hbegun hsome (.inl ⟨hlink, rfl⟩)
  | none =>
    cases hconnect : S.network.connect S.world.asked S.world.listeners
        (S.heap.client ref).endpoint with
    | error reason =>
      obtain ⟨u, T, hconnected, hworld, hsteps, hresumes⟩ :=
        begins_refused (C := C) hidle href hfree hlink text hconnect
      rw [hconnected]
      exact .refused hlink hconnect hworld hsteps hresumes
    | ok server =>
      obtain ⟨k, T, hconnected, hsteps, hbegun, hsome, rfl⟩ :=
        begins_dialled (C := C) hidle href hfree hlink text hconnect
      rw [hconnected]
      exact .connected (hlink ▸ hsteps) hbegun hsome (.inr ⟨hlink, rfl⟩)

-- A send writes its text when its client has a connection. There is no request at the
-- connection then, so the server finds this one.
theorem Run.posts (h : Run C es S) (hsend : S.sends i = .started ref text)
    (hsome : (S.heap.client ref).connection = some k) :
    ∃ server s, (S.heap.connection k).server = server ∧ S.heap.servers[server]? = some s ∧
      .offers server s ∈ es ∧
      Fits ((S.onHeap (·.onConnection k (·.post text))).send i (.waiting ref text k)) k server
        s.handler (.asked i text) := by
  have hsound := h.sound
  have hk := hsound.orderly.range ref k hsome
  obtain ⟨server, s, status, hs, -, -, hfits⟩ := hsound.talks k hk
  obtain rfl := hfits.eq_idle hsound.orderly hsome
    fun j message => hsound.orderly.not_waiting_of_started hsend j message
  exact ⟨server, s, hfits.server, hs, hsound.offered server s hs, hfits.posts hk i ref text⟩

-- What a send ends with: the reply, or that its server has hung up.
def delivered (endpoint : Endpoint) (w : World) (reply : Option String) : Outcome String :=
  reply.elim (.error (.fault (.runtime (.closedByPeer endpoint.text))) w) (.ok · w)

-- The client of a send that is over is free. It keeps its connection unless the server has hung
-- up.
theorem Step.client_of_returns (h : Run C es S) (hsend : S.sends i = .waiting ref text k)
    {reply : Option String} (hstep : Step C S [.returns i k reply] T) :
    T.heap.client ref = ⟨(S.heap.client ref).endpoint, reply.map fun _ => k, false⟩ := by
  have href := (h.sound.orderly.active i ref (congrArg Phase.client? hsend)).1
  cases hstep with
  | returns hsend' hcollect =>
    cases hsend.symm.trans hsend'
    refine (Heap.client_onClient_self href _).trans ?_
    exact congrArg (Client.mk (S.heap.client ref).endpoint · false)
      (h.sound.orderly.waiting i ref text k hsend)
  | loses hsend' hcollect =>
    next c =>
    cases hsend.symm.trans hsend'
    have hsize := (S.heap.onConnection k fun _ => c).size_clients_leave ref
    refine (Heap.client_onClient_self (hsize ▸ href) _).trans ?_
    exact congrArg (fun c : Client => { c with held := false })
      ((Heap.client_leave _ ref ref).trans (if_pos rfl))

-- The send gets what its server has written, and gives its client back.
theorem receive_runs {x : Exchange} (hsend : S.sends x.send = .waiting ref text k)
    (hfits : Fits S k server f (.finished x)) :
    (∃ t, receive ref k S.world = .error .outOfFuel t ∧ x.reply? = some "") ∨
      ∃ T, Step C S [.returns x.send k x.reply?] T ∧ T.sends = update S.sends x.send .done ∧
        T.turns = S.turns ∧
        Outcome.released ref (receive ref k S.world) =
          delivered (S.heap.client ref).endpoint T.world x.reply? := by
  have hreplies := hfits.replies
  rw [Status.replies] at hreplies
  cases hx : x.reply? with
  | some reply =>
    rw [hx] at hreplies
    by_cases hreply : reply.isEmpty = true
    · have hcollect : (S.heap.connection k).collect? = none := by
        rw [Connection.collect?, hreplies, Option.elim, Stream.read?_write_of_isEmpty hreply]
        rfl
      refine .inl ⟨S.world, ?_, congrArg some (String.isEmpty_iff.mp hreply)⟩
      rw [receive, Exec.bind_apply, awaiting_none hcollect]
    · have hcollect : (S.heap.connection k).collect? =
          some (some reply, { S.heap.connection k with replies := .fresh }) := by
        rw [Connection.collect?, hreplies, Option.elim, Stream.read?_write hreply]
        rfl
      refine .inr ⟨_, .returns hsend hcollect, rfl, rfl, ?_⟩
      rw [receive, Exec.bind_apply, awaiting_eq hcollect]
      rfl
  | none =>
    rw [hx] at hreplies
    have hcollect : (S.heap.connection k).collect? =
        some (none, { S.heap.connection k with replies := Stream.fresh.finish }) := by
      rw [Connection.collect?, hreplies]
      rfl
    let left := (S.heap.onConnection k fun _ =>
      { S.heap.connection k with replies := Stream.fresh.finish }).leave ref
    have hreceive : receive ref k S.world =
        .error (.fault (.runtime (.closedByPeer (left.client ref).endpoint.text)))
          { S.world with heap := left } := by
      rw [receive, Exec.bind_apply, awaiting_eq hcollect]
      rfl
    have hendpoint : (left.client ref).endpoint = (S.heap.client ref).endpoint :=
      Heap.endpoint_leave _ ref ref
    refine .inr ⟨_, .loses hsend hcollect, rfl, rfl, ?_⟩
    rw [hreceive, hendpoint]
    rfl

-- A send has begun and its text has been read, over the connection that its client had or over a
-- new one. The handler of the server is about to run.
def Asked (C : Conduct) (es : List Event) (S A : State) (ref : Nat) (text : String) (i k : Nat)
    (f : Function) : Prop :=
  ∃ server s dialled, .offers server s ∈ es ∧ s.handler = f ∧
    ((S.heap.client ref).connection = some k ∧ dialled = [] ∨
      (S.heap.client ref).connection = none ∧ dialled = [.dials i k server]) ∧
    Steps C S (.begins i ref text (S.heap.client ref).connection ::
      (dialled ++ [.posts i k text, .invokes k globals f [.str text] A.world])) A

theorem Asked.of_steps {A : State} {s : Server} {dialled : List Event}
    (hsteps : Steps C S (.begins i ref text (S.heap.client ref).connection :: dialled ++
      [.posts i k text] ++ [.invokes k globals s.handler [.str text] A.world]) A)
    (hdialled : (S.heap.client ref).connection = some k ∧ dialled = [] ∨
      (S.heap.client ref).connection = none ∧ dialled = [.dials i k server])
    (hoffers : .offers server s ∈
      es ++ .begins i ref text (S.heap.client ref).connection :: dialled) :
    Asked C es S A ref text i k s.handler := by
  refine ⟨server, s, dialled, ?_, rfl, hdialled, by simpa using hsteps⟩
  rcases List.mem_append.mp hoffers with hes | hnew
  · exact hes
  · rcases hdialled with ⟨-, rfl⟩ | ⟨-, rfl⟩ <;> simp at hnew

-- What can come of a request. It is without an end if its client is held, if there is nothing to
-- read, or if the handler hangs. Otherwise it is refused, or the handler is called once, and the
-- send gets the text of what it returns. If the handler fails, the client loses its connection.
inductive Served (C : Conduct) (ev : Evaluators) (es : List Event) (S : State) (ref : Nat)
    (text : String) : Outcome String → Prop
  | busy (hheld : (S.heap.client ref).held = true) :
    Served C ev es S ref text (.error .outOfFuel S.world)
  | empty (t : World) (htext : text = "") : Served C ev es S ref text (.error .outOfFuel t)
  | refused {i : Nat} {reason : String} {T : State}
    (hnone : (S.heap.client ref).connection = none)
    (hconnect : S.network.connect S.world.asked S.world.listeners (S.heap.client ref).endpoint =
      .error reason)
    (hsteps : Steps C S [.begins i ref text none, .refused i reason] T) (hresumes : S.Resumes T) :
    Served C ev es S ref text
      (.error (.fault (.runtime (.cannotConnect (S.heap.client ref).endpoint.text reason)))
        T.world)
  | hangs {i k : Nat} {f : Function} {A : State} {u : World} (t : World)
    (hasked : Asked C es S A ref text i k f)
    (hcall : ev.call globals f [.str text] A.world = .error .outOfFuel u) :
    Served C ev es S ref text (.error .outOfFuel t)
  | silent {i k : Nat} {f : Function} {A : State} {v : Value} {u : World} (t : World)
    (hasked : Asked C es S A ref text i k f)
    (hcall : ev.call globals f [.str text] A.world = .ok v u) (hempty : u.heap.display v = "") :
    Served C ev es S ref text (.error .outOfFuel t)
  | answered {i k : Nat} {f : Function} {A B T : State} {inner : List Event} {v : Value}
    (hasked : Asked C es S A ref text i k f)
    (hcall : ev.call globals f [.str text] A.world = .ok v B.world) (hinner : Steps C A inner B)
    (hends : Steps C B
      [.ends k (.ok v B.world), .returns i k (some (B.heap.display v))] T)
    (hclient : T.heap.client ref = ⟨(S.heap.client ref).endpoint, some k, false⟩)
    (hresumes : S.Resumes T) : Served C ev es S ref text (.ok (B.heap.display v) T.world)
  | failed {i k : Nat} {f : Function} {A B T : State} {inner : List Event} {stop : Stop}
    (hasked : Asked C es S A ref text i k f)
    (hcall : ev.call globals f [.str text] A.world = .error stop B.world)
    (hstop : stop ≠ .outOfFuel) (hinner : Steps C A inner B)
    (hends : Steps C B [.ends k (.error stop B.world), .returns i k none] T)
    (hclient : T.heap.client ref = .fresh (S.heap.client ref).endpoint)
    (hresumes : S.Resumes T) :
    Served C ev es S ref text
      (.error (.fault (.runtime (.closedByPeer (S.heap.client ref).endpoint.text))) T.world)

-- The server has said what came of the call, and the send has got it.
theorem Served.of_ends {A B : State} {inner : List Event} {r : Outcome Value}
    (hasked : Asked C es S A ref text i k f)
    (hcall : ev.call globals f [.str text] A.world = r) (hover : Outcome.isOver r = true)
    (hworld : B.world = Outcome.world r) (hinner : Steps C A inner B)
    (hends : Steps C B [.ends k r, .returns i k r.reply?] T)
    (hclient : T.heap.client ref =
      ⟨(S.heap.client ref).endpoint, r.reply?.map fun _ => k, false⟩)
    (hresumes : S.Resumes T) :
    Served C ev es S ref text (delivered (S.heap.client ref).endpoint T.world r.reply?) := by
  cases r with
  | ok v t =>
    obtain rfl : B.world = t := hworld
    exact .answered hasked hcall hinner hends hclient hresumes
  | error stop t =>
    obtain rfl : B.world = t := hworld
    refine .failed hasked hcall ?_ hinner hends hclient hresumes
    rintro rfl
    cases hover

-- What comes of a call that has been made for nothing: it hangs, or its reply is empty.
theorem Served.of_silence {A : State} {r : Outcome Value} (t : World)
    (hasked : Asked C es S A ref text i k f)
    (hcall : ev.call globals f [.str text] A.world = r)
    (hr : Outcome.isOver r = false ∨ r.reply? = some "") :
    Served C ev es S ref text (.error .outOfFuel t) := by
  cases r with
  | ok v u =>
    rcases hr with hover | hempty
    · cases hover
    · exact .silent t hasked hcall (Option.some.inj hempty)
  | error stop u =>
    cases stop with
    | outOfFuel => exact .hangs t hasked hcall
    | fault | crash => rcases hr with hr | hr <;> cases hr

theorem exchange_eq (T : State) (ev : Evaluators) (ref k i : Nat) (text : String) :
    exchange ev ref k text T.world =
      Outcome.next
        (turn ev k
          ((T.onHeap (·.onConnection k (·.post text))).send i (.waiting ref text k)).world)
        fun _ => receive ref k := by
  rw [exchange, Exec.bind_eq_next]
  exact Exec.bind_eq_next _ _ _

-- A request is written, answered once, and the answer is read.
theorem Served.of_connected (hev : Honest C ev) (h : Run C es S)
    (href : ref < S.heap.clients.size) {dialled : List Event}
    (hbefore : Steps C S (.begins i ref text (S.heap.client ref).connection :: dialled) T)
    (hbegun : Begun S T i (.started ref text)) (hsome : (T.heap.client ref).connection = some k)
    (hdialled : (S.heap.client ref).connection = some k ∧ dialled = [] ∨
      (S.heap.client ref).connection = none ∧
        dialled = [.dials i k (T.heap.connection k).server]) :
    Served C ev es S ref text (Outcome.released ref (exchange ev ref k text T.world)) := by
  let P := (T.onHeap (·.onConnection k (·.post text))).send i (.waiting ref text k)
  have hrun := h.steps hbefore
  have hposts : Step C T [.posts i k text] P := .posts hbegun.phase_eq hsome
  obtain ⟨server, s, rfl, hs, hoffers, hfits⟩ := hrun.posts hbegun.phase_eq hsome
  have hwaits : Begun S P i (.waiting ref text k) := hbegun.send _ _
  rw [exchange_eq T ev ref k i text]
  by_cases htext : text.isEmpty = true
  · rw [turn_of_isEmpty hfits htext]
    exact .empty _ (String.isEmpty_iff.mp htext)
  · have hhandler : (P.heap.server (T.heap.connection k).server).handler = s.handler :=
      Heap.handler_eq hs
    have hk := ((hrun.step hposts).talk hwaits.phase_eq).1
    have hcalls := Step.calls (C := C) hk hfits hhandler htext
    have hsteps := (hbefore.step hposts).step hcalls
    have hasked := Asked.of_steps hsteps hdialled hoffers
    obtain ⟨r, hr⟩ : ∃ r, ev.call globals s.handler [.str text]
        (P.calls k s.handler text).world = r := ⟨_, rfl⟩
    rcases turn_runs hev (hrun.step hposts) hwaits.phase_eq hfits hhandler htext hr with
      ⟨hhangs, hturn⟩ |
        ⟨inner, B, hworld, hinner, hturn, hends, hsendE, ⟨_, hfitsE⟩, hresumes⟩
    · rw [hturn]
      exact .of_silence _ hasked hr (.inl hhangs)
    · have hall := (hsteps.trans hinner).step hends
      rw [hturn]
      rcases receive_runs hsendE hfitsE with
        ⟨t, hreceive, hempty⟩ | ⟨V, hreturns, hsends, hturns, hdelivered⟩
      · rw [Outcome.next, hreceive]
        exact .of_silence _ hasked hr (.inr hempty)
      · have hendpoint := (hall.endpoint_eq href).2
        have hclient := hreturns.client_of_returns (h.steps hall) hsendE
        rw [hendpoint] at hclient
        rw [Outcome.next, hdelivered, hendpoint]
        have hover : Outcome.isOver r = true := by
          cases hends with
          | ends _ _ hr _ => exact C.isOver hr
        exact .of_ends hasked hr hover hworld hinner ((Steps.single hends).step hreturns) hclient
          (hwaits.resumes hresumes hsends hturns)

theorem request_served (hev : Honest C ev) (h : Run C es S) (href : ref < S.heap.clients.size)
    (text : String) : Served C ev es S ref text (request ev ref text S.world) := by
  cases hfree : (S.heap.client ref).held with
  | true =>
    rw [request, Exec.holding_of_held _ hfree]
    exact .busy hfree
  | false =>
    have hopening := h.opening href hfree text
    rw [request, Exec.holding_of_free _ hfree, Exec.bind_eq_next]
    generalize connected ref (S.world.hold ref true) = r at hopening ⊢
    cases hopening with
    | refused hnone hconnect hworld hsteps hresumes =>
      rw [Outcome.next, Outcome.released, ← hworld]
      exact .refused hnone hconnect hsteps hresumes
    | connected hsteps hbegun hsome hdialled =>
      exact .of_connected hev h href hsteps hbegun hsome hdialled

-- The calls from all states that one can come to are the same.
def SameCalls (C : Conduct) (ev ev' : Evaluators) (S : State) : Prop :=
  ∀ es T, Steps C S es T → ∀ f args,
    ev.call globals f args T.world = ev'.call globals f args T.world

theorem SameCalls.steps (hsame : SameCalls C ev ev' S) (hsteps : Steps C S es T) :
    SameCalls C ev ev' T :=
  fun _ U hmore => hsame _ U (hsteps.trans hmore)

theorem exchange_congr (hsame : SameCalls C ev ev' S) (h : Run C es S)
    (hsend : S.sends i = .started ref text) (hsome : (S.heap.client ref).connection = some k) :
    exchange ev ref k text S.world = exchange ev' ref k text S.world := by
  let P := (S.onHeap (·.onConnection k (·.post text))).send i (.waiting ref text k)
  have hposts : Step C S [.posts i k text] P := .posts hsend hsome
  obtain ⟨server, s, -, hs, -, hfits⟩ := h.posts hsend hsome
  rw [exchange_eq S ev ref k i, exchange_eq S ev' ref k i]
  by_cases htext : text.isEmpty = true
  · rw [turn_of_isEmpty hfits htext, turn_of_isEmpty hfits htext]
  · have hk := ((h.step hposts).talk (update_self _ _ _)).1
    have hhandler : ((P.calls k s.handler text).world.heap.server server).handler = s.handler :=
      Heap.handler_eq hs
    have hcalls : Step C P _ (P.calls k s.handler text) :=
      .calls hk hfits (Heap.handler_eq hs) htext
    have hcall := hsame _ _ ((Steps.single hposts).step hcalls) s.handler [.str text]
    rw [turn_of_asked hk hfits htext, turn_of_asked hk hfits htext, answer?_eq hhandler hcall,
      answer?_eq hhandler rfl]

-- A request depends on nothing but the calls of handlers.
theorem request_congr (hsame : SameCalls C ev ev' S) (h : Run C es S) (ref : Nat)
    (text : String) : request ev ref text S.world = request ev' ref text S.world := by
  by_cases href : ref < S.heap.clients.size
  · cases hfree : (S.heap.client ref).held with
    | true => rw [request, request, Exec.holding_of_held _ hfree, Exec.holding_of_held _ hfree]
    | false =>
      have hopening := h.opening href hfree text
      rw [request, request, Exec.holding_of_free _ hfree, Exec.holding_of_free _ hfree,
        Exec.bind_eq_next, Exec.bind_eq_next]
      generalize connected ref (S.world.hold ref true) = r at hopening ⊢
      cases hopening with
      | refused => rfl
      | connected hsteps hbegun hsome =>
        rw [Outcome.next, Outcome.next,
          exchange_congr (hsame.steps hsteps) (h.steps hsteps) hbegun.phase_eq hsome]
  · obtain ⟨reason, hreason⟩ := S.network.unreached S.world.asked S.world.listeners 0
    have habsent := Nat.le_of_not_lt href
    rw [Simulation.request_of_absent habsent hreason, Simulation.request_of_absent habsent hreason]

end Channel

end Parlance
