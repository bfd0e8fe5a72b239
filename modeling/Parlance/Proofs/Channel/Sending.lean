import Parlance.Proofs.Channel.Exchange

namespace Parlance.Channel

variable {C : Conduct} {S T : State} {es new : List Event} {i : Nat}

theorem sending_append (i : Nat) (es new : List Event) :
    sending i (es ++ new) = sending i es ++ sending i new :=
  List.filter_append _ _

theorem sending_of_by {e : Event} (h : e.send? = some i) : sending i [e] = [e] := by
  simp [sending, h]

theorem send?_of_sending {e : Event} (h : sending i [e] ≠ []) : e.send? = some i := by
  simpa [sending] using h

theorem sending_eq_nil {e : Event} : sending i [e] = [] ↔ e.send? ≠ some i := by
  simp [sending]

-- What a send does, up to a phase in which its client has a connection or none.
inductive Life (i : Nat) : List Event → Phase → Option Nat → Prop
  | idle : Life i [] .idle none
  | begins (ref : Nat) (text : String) (link : Option Nat) :
    Life i [.begins i ref text link] (.started ref text) link
  | refused {es : List Event} {ref : Nat} {text : String} (reason : String)
    (h : Life i es (.started ref text) none) : Life i (es ++ [.refused i reason]) .done none
  | dials {es : List Event} {ref : Nat} {text : String} (k server : Nat)
    (h : Life i es (.started ref text) none) :
    Life i (es ++ [.dials i k server]) (.started ref text) (some k)
  | posts {es : List Event} {ref k : Nat} {text : String}
    (h : Life i es (.started ref text) (some k)) :
    Life i (es ++ [.posts i k text]) (.waiting ref text k) (some k)
  | returns {es : List Event} {ref k : Nat} {text : String} (reply : Option String)
    (h : Life i es (.waiting ref text k) (some k)) :
    Life i (es ++ [.returns i k reply]) .done none

-- All that a send does. It is refused, or its text is written once and it gets one answer, over
-- the connection of its client or over a new one.
inductive Course (i : Nat) : List Event → Prop
  | refused (ref : Nat) (text reason : String) :
    Course i [.begins i ref text none, .refused i reason]
  | linked (ref k : Nat) (text : String) (reply : Option String) :
    Course i [.begins i ref text (some k), .posts i k text, .returns i k reply]
  | dialled (ref k server : Nat) (text : String) (reply : Option String) :
    Course i [.begins i ref text none, .dials i k server, .posts i k text, .returns i k reply]

namespace Life

variable {ref k : Nat} {text : String} {link : Option Nat}

theorem of_started (h : Life i es (.started ref text) link) :
    es = [.begins i ref text link] ∨
      ∃ k server, link = some k ∧ es = [.begins i ref text none, .dials i k server] := by
  cases h with
  | begins => exact .inl rfl
  | dials k server h =>
    cases h with
    | begins => exact .inr ⟨k, server, rfl, rfl⟩

theorem of_waiting (h : Life i es (.waiting ref text k) link) :
    es = [.begins i ref text (some k), .posts i k text] ∨
      ∃ server, es = [.begins i ref text none, .dials i k server, .posts i k text] := by
  cases h with
  | posts h =>
    rcases h.of_started with rfl | ⟨l, server, hl, rfl⟩
    · exact .inl rfl
    · cases hl
      exact .inr ⟨server, rfl⟩

-- A send that is over has done all, and another one can still do the rest.
theorem of_done (h : Life i es .done link) : Course i es := by
  cases h with
  | refused reason h =>
    rcases h.of_started with rfl | ⟨l, server, hl, -⟩
    · exact .refused _ _ reason
    · cases hl
  | returns reply h =>
    rcases h.of_waiting with rfl | ⟨server, rfl⟩
    · exact .linked _ _ _ reply
    · exact .dialled _ _ server _ reply

theorem course {phase : Phase} (h : Life i es phase link) : ∃ rest, Course i (es ++ rest) := by
  cases phase with
  | idle =>
    cases h
    exact ⟨_, .refused 0 "" ""⟩
  | started ref text =>
    rcases h.of_started with rfl | ⟨k, server, -, rfl⟩
    · cases link with
      | none => exact ⟨_, .refused ref text ""⟩
      | some k => exact ⟨_, .linked ref k text none⟩
    · exact ⟨_, .dialled ref k server text none⟩
  | waiting ref text k =>
    rcases h.of_waiting with rfl | ⟨server, rfl⟩
    · exact ⟨_, .linked ref k text none⟩
    · exact ⟨_, .dialled ref k server text none⟩
  | done => exact ⟨[], by rw [List.append_nil]; exact h.of_done⟩

end Life

-- The connection of the client that a send holds.
def State.link (S : State) (i : Nat) : Option Nat :=
  (S.sends i).client?.bind fun ref => (S.heap.client ref).connection

theorem State.link_eq {ref : Nat} (h : (S.sends i).client? = some ref) :
    S.link i = (S.heap.client ref).connection := by
  rw [link, h]
  rfl

theorem State.link_send (S : State) (i : Nat) (phase : Phase) :
    (S.send i phase).link i = phase.client?.bind fun ref => (S.heap.client ref).connection := by
  rw [link, sends_send, update_self]
  rfl

-- A step of another send, of a server or of a client that is free.
theorem Step.bystander (ho : Orderly S) (hstep : Step C S new T) (hnew : sending i new = []) :
    T.sends i = S.sends i ∧ ∀ ref, (S.sends i).client? = some ref →
      (T.heap.client ref).connection = (S.heap.client ref).connection := by
  have hother : ∀ {j r}, (S.sends j).client? = some r → j ≠ i →
      ∀ ref, (S.sends i).client? = some ref → ref ≠ r :=
    fun hj hne ref hi heq => hne (ho.alone _ i _ hj (heq ▸ hi))
  have hne : ∀ {e : Event} {j}, new = [e] → e.send? = some j → j ≠ i :=
    fun hnew' he heq => sending_eq_nil.mp (hnew' ▸ hnew) (heq ▸ he)
  cases hstep with
  | changes happart =>
    refine ⟨rfl, fun ref _ => ?_⟩
    exact congrArg (fun cs : Array Client => (cs.getD ref _).connection) happart.clients
  | opens endpoint => exact ⟨rfl, fun ref _ => S.heap.linked_addClient endpoint ref⟩
  | ends =>
    exact ⟨congrFun (S.sends_ends _ _) i,
      fun ref _ => congrArg Client.connection (S.client_ends _ _ ref)⟩
  | offers | listens | invokes | departs => exact ⟨rfl, fun _ _ => rfl⟩
  | begins text hidle href hfree =>
    exact ⟨update_of_ne (hne rfl rfl).symm _ _, fun ref _ => S.heap.connection_hold _ true ref⟩
  | refused hsend hnone hconnect =>
    exact ⟨update_of_ne (hne rfl rfl).symm _ _, fun ref _ => S.heap.connection_hold _ false ref⟩
  | dials hsend hnone hconnect =>
    have hj := congrArg Phase.client? hsend
    refine ⟨rfl, fun ref hi => ?_⟩
    rw [State.heap_onHeap, State.heap_asking, Heap.linked_dial (ho.active _ _ hj).1,
      if_neg (hother hj (hne rfl rfl) ref hi)]
  | posts hsend hsome => exact ⟨update_of_ne (hne rfl rfl).symm _ _, fun _ _ => rfl⟩
  | returns hsend hcollect =>
    exact ⟨update_of_ne (hne rfl rfl).symm _ _, fun ref _ => Heap.connection_hold _ _ false ref⟩
  | loses hsend hcollect =>
    have hj := congrArg Phase.client? hsend
    refine ⟨update_of_ne (hne rfl rfl).symm _ _, fun ref hi => ?_⟩
    rw [State.heap_send, State.heap_onHeap, Heap.connection_hold, Heap.linked_leave,
      if_neg (hother hj (hne rfl rfl) ref hi)]
    rfl
  | closes hfree =>
    refine ⟨rfl, fun ref hi => ?_⟩
    rw [State.heap_onHeap, Heap.linked_leave, if_neg]
    rintro rfl
    cases hfree.symm.trans (ho.active i ref hi).2

theorem Step.link_eq (ho : Orderly S) (hstep : Step C S new T) (hnew : sending i new = []) :
    T.link i = S.link i := by
  obtain ⟨hsame, hlink⟩ := hstep.bystander ho hnew
  unfold State.link
  rw [hsame]
  cases hclient : (S.sends i).client? with
  | none => rfl
  | some ref => exact hlink ref hclient

theorem Life.eq_nil {link : Option Nat} (h : Life i es .idle link) : es = [] := by
  cases h
  rfl

theorem Life.eq_idle {phase : Phase} {link : Option Nat} (h : Life i [] phase link) :
    phase = .idle := by
  generalize hes : ([] : List Event) = es at h
  cases h with
  | idle => rfl
  | begins => cases hes
  | refused | dials | posts | returns => simp at hes

theorem Life.step (ho : Orderly S) (hstep : Step C S new T) (h : Life i es (S.sends i) (S.link i)) :
    Life i (es ++ sending i new) (T.sends i) (T.link i) := by
  by_cases hnew : sending i new = []
  · rw [hnew, List.append_nil, (hstep.bystander ho hnew).1, hstep.link_eq ho hnew]
    exact h
  · cases hstep with
    | changes | opens | offers | listens | invokes | ends | departs | closes =>
      exact absurd rfl hnew
    | begins text hidle href hfree =>
      next j ref =>
      obtain rfl : j = i := Option.some.inj (send?_of_sending hnew)
      rw [hidle] at h
      rw [h.eq_nil, sending_of_by rfl, State.link_send, State.sends_send, update_self,
        ← S.heap.connection_hold ref true ref]
      exact .begins ref text _
    | refused hsend hnone hconnect =>
      next j ref text reason =>
      obtain rfl : j = i := Option.some.inj (send?_of_sending hnew)
      rw [State.link_eq (congrArg Phase.client? hsend), hsend, hnone] at h
      rw [sending_of_by rfl, State.link_send, State.sends_send, update_self]
      exact .refused reason h
    | dials hsend hnone hconnect =>
      next j ref server text =>
      obtain rfl : j = i := Option.some.inj (send?_of_sending hnew)
      have hclient := congrArg Phase.client? hsend
      rw [State.link_eq hclient, hsend, hnone] at h
      have hlink : (S.asking.onHeap (·.dial ref server)).link j =
          some S.heap.connections.size := by
        rw [State.link_eq (S := S.asking.onHeap _) hclient, State.heap_onHeap, State.heap_asking,
          Heap.linked_dial (ho.active j ref hclient).1, if_pos rfl]
      rw [sending_of_by rfl, hlink, State.sends_onHeap, State.sends_asking, hsend]
      exact .dials _ server h
    | posts hsend hsome =>
      next j ref k text =>
      obtain rfl : j = i := Option.some.inj (send?_of_sending hnew)
      rw [State.link_eq (congrArg Phase.client? hsend), hsend, hsome] at h
      have hlink : ((Phase.waiting ref text k).client?.bind fun ref =>
          ((S.onHeap (·.onConnection k (·.post text))).heap.client ref).connection) = some k :=
        hsome
      rw [sending_of_by rfl, State.link_send, State.sends_send, update_self, hlink]
      exact .posts h
    | returns hsend hcollect =>
      next j ref k text reply c =>
      obtain rfl : j = i := Option.some.inj (send?_of_sending hnew)
      rw [State.link_eq (congrArg Phase.client? hsend), hsend, ho.waiting j ref text k hsend] at h
      rw [sending_of_by rfl, State.link_send, State.sends_send, update_self]
      exact .returns (some reply) h
    | loses hsend hcollect =>
      next j ref k text c =>
      obtain rfl : j = i := Option.some.inj (send?_of_sending hnew)
      rw [State.link_eq (congrArg Phase.client? hsend), hsend, ho.waiting j ref text k hsend] at h
      rw [sending_of_by rfl, State.link_send, State.sends_send, update_self]
      exact .returns none h

theorem Run.life (h : Run C es S) (i : Nat) : Life i (sending i es) (S.sends i) (S.link i) := by
  induction h with
  | start _ => exact .idle
  | step hrun hstep ih =>
    rw [sending_append]
    exact ih.step hrun.sound.orderly hstep

end Parlance.Channel
