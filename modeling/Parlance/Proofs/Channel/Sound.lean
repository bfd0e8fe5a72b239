import Parlance.Proofs.Channel.Conversation

namespace Parlance.Channel

variable {C : Conduct} {S T : State} {es new : List Event}

namespace State

variable (S : State) (k : Nat) (reply : Option String)

theorem sends_ends : (S.ends k reply).sends = S.sends := by
  cases reply <;> rfl

theorem turns_ends {l : Nat} (h : l ≠ k) : (S.ends k reply).turns l = S.turns l := by
  cases reply <;> exact update_of_ne h _ _

theorem servers_ends : (S.ends k reply).heap.servers = S.heap.servers := by
  cases reply <;> rfl

theorem listeners_ends : (S.ends k reply).world.listeners = S.world.listeners := by
  cases reply <;> rfl

theorem client_ends (ref : Nat) : (S.ends k reply).heap.client ref = S.heap.client ref := by
  cases reply <;> rfl

theorem size_clients_ends : (S.ends k reply).heap.clients.size = S.heap.clients.size := by
  cases reply <;> rfl

theorem size_connections_ends :
    (S.ends k reply).heap.connections.size = S.heap.connections.size := by
  cases reply <;> exact Heap.size_connections_onConnection _ _ _

end State

-- Servers are there to stay.
theorem Step.servers_eq (hstep : Step C S new T) :
    T.heap.servers = S.heap.servers ∨
      ∃ s, new = [.offers S.heap.servers.size s] ∧ T.heap.servers = S.heap.servers.push s := by
  cases hstep with
  | offers s => exact .inr ⟨s, rfl, rfl⟩
  | changes happart => exact .inl happart.servers
  | closes hfree => exact .inl (S.heap.servers_leave _)
  | loses hsend hcollect => exact .inl (Heap.servers_leave _ _)
  | ends => exact .inl (S.servers_ends _ _)
  | _ => exact .inl rfl

theorem Step.server_of (hstep : Step C S new T) {server : Nat} {s : Server}
    (hs : S.heap.servers[server]? = some s) : T.heap.servers[server]? = some s := by
  rcases hstep.servers_eq with heq | ⟨added, -, heq⟩
  · rw [heq, hs]
  · rw [heq, Array.getElem?_push, if_neg, hs]
    exact Nat.ne_of_lt (Array.getElem?_eq_some_iff.mp hs).1

-- Only a server that is there can wait for clients.
theorem Step.listeners_eq (hstep : Step C S new T) :
    T.world.listeners = S.world.listeners ∨
      ∃ l : Network.Listener, new = [.listens l.server] ∧ l.server < S.heap.servers.size ∧
        T.world.listeners = l :: S.world.listeners := by
  cases hstep with
  | changes happart => exact .inl happart.listeners
  | listens haccepted =>
    next ref =>
    refine .inr ⟨⟨_, ref⟩, rfl, Nat.lt_of_not_le fun hle => ?_, rfl⟩
    -- A server that is not there has no address, and nobody can wait without one.
    rw [Heap.server, Array.getD_eq_getD_getElem?, Array.getElem?_eq_none hle] at haccepted
    obtain ⟨reason, hrefused⟩ := S.network.unbound S.world.asked S.world.listeners 0
    cases hrefused.symm.trans haccepted
  | ends => exact .inl (S.listeners_ends _ _)
  | _ => exact .inl rfl

-- Connections are there to stay, too, and only one at a time is added.
theorem Step.connections_eq (hstep : Step C S new T) :
    T.heap.connections.size = S.heap.connections.size ∨
      ∃ i ref text server, S.sends i = .started ref text ∧
        S.network.connect S.world.asked S.world.listeners (S.heap.client ref).endpoint =
          .ok server ∧
        new = [.dials i S.heap.connections.size server] ∧
        T = S.asking.onHeap (·.dial ref server) := by
  cases hstep with
  | changes happart => exact .inl (congrArg Array.size happart.connections)
  | dials hsend hnone hconnect => exact .inr ⟨_, _, _, _, hsend, hconnect, rfl, rfl⟩
  | closes hfree => exact .inl (S.heap.size_connections_leave _)
  | loses hsend hcollect =>
    refine .inl ((Heap.size_connections_leave _ _).trans ?_)
    exact Heap.size_connections_onConnection _ _ _
  | ends => exact .inl (S.size_connections_ends _ _)
  | posts | invokes | departs | returns => exact .inl (Heap.size_connections_onConnection _ _ _)
  | _ => exact .inl rfl

theorem Step.connections_le (hstep : Step C S new T) :
    S.heap.connections.size ≤ T.heap.connections.size := by
  rcases hstep.connections_eq with heq | ⟨i, ref, text, server, -, -, -, rfl⟩
  · exact Nat.le_of_eq heq.symm
  · rw [State.heap_onHeap, State.heap_asking, Heap.size_connections_dial]
    exact Nat.le_succ _

-- What happens at a connection happens when there is one.
theorem Step.unused (ho : Orderly S) (hstep : Step C S new T) {k : Nat}
    (hk : T.heap.connections.size ≤ k) : conversation k new = [] ∧ T.turns k = S.turns k := by
  have hlt : ∀ l, l < S.heap.connections.size → l ≠ k := fun l hl =>
    Nat.ne_of_lt (Nat.lt_of_lt_of_le hl (Nat.le_trans hstep.connections_le hk))
  have hlink : ∀ ref, (S.heap.client ref).connection ≠ some k :=
    fun ref hsome => hlt k (ho.range ref k hsome) rfl
  have hat : ∀ {e : Event} {l}, e.connection? = some l → l ≠ k → conversation k [e] = [] :=
    fun he hne => conversation_eq_nil.mpr fun hk => hne (Option.some.inj (he.symm.trans hk))
  cases hstep with
  | changes | opens | offers | listens | begins | refused => exact ⟨rfl, rfl⟩
  | dials hsend hnone hconnect =>
    rw [State.heap_onHeap, State.heap_asking, Heap.size_connections_dial] at hk
    exact ⟨hat rfl (Nat.ne_of_lt hk), rfl⟩
  | posts hsend hsome => exact ⟨hat rfl fun heq => hlink _ (heq ▸ hsome), rfl⟩
  | ends hl _ _ _ => exact ⟨hat rfl (hlt _ hl), S.turns_ends _ _ (hlt _ hl).symm⟩
  | invokes hl _ _ _ | departs hl _ _ =>
    exact ⟨hat rfl (hlt _ hl), update_of_ne (hlt _ hl).symm _ _⟩
  | returns hsend hcollect =>
    exact ⟨hat rfl fun heq => hlink _ (heq ▸ ho.waiting _ _ _ _ hsend), rfl⟩
  | loses hsend hcollect =>
    exact ⟨hat rfl fun heq => hlink _ (heq ▸ ho.waiting _ _ _ _ hsend), rfl⟩
  | closes hfree => exact ⟨conversation_eq_nil.mpr (hlink _), rfl⟩

-- All that is true of what can have happened.
structure Sound (C : Conduct) (es : List Event) (S : State) : Prop where
  orderly : Orderly S
  offered : ∀ server s, S.heap.servers[server]? = some s → .offers server s ∈ es
  listening : ∀ l ∈ S.world.listeners, l.server < S.heap.servers.size ∧ .listens l.server ∈ es
  talks : ∀ k, k < S.heap.connections.size → ∃ server s status,
    S.heap.servers[server]? = some s ∧ .listens server ∈ es ∧
      Talk C k server s.handler (conversation k es) status ∧ Fits S k server s.handler status
  unused : ∀ k, S.heap.connections.size ≤ k → conversation k es = [] ∧ S.turns k = .reading

namespace Sound

theorem start {w : World} (h : w.Unconnected) : Sound C [] (.start w) where
  orderly := .start h
  offered server s hs := by
    rw [State.heap_start, h.servers] at hs
    cases hs
  listening l hl := by
    have hnone : l ∈ w.listeners := hl
    rw [h.listeners] at hnone
    cases hnone
  talks k hk := by
    rw [State.heap_start, h.connections] at hk
    cases hk
  unused k _ := ⟨rfl, rfl⟩

theorem step (h : Sound C es S) (hstep : Step C S new T) : Sound C (es ++ new) T where
  orderly := h.orderly.step hstep
  offered server s hs := by
    rcases hstep.servers_eq with heq | ⟨added, rfl, heq⟩
    · rw [heq] at hs
      exact List.mem_append_left _ (h.offered server s hs)
    · rw [heq, Array.getElem?_push] at hs
      split at hs
      · next hsize =>
        cases hs
        subst hsize
        exact List.mem_append_right _ (List.mem_singleton.mpr rfl)
      · exact List.mem_append_left _ (h.offered server s hs)
  listening l hl := by
    have hle : S.heap.servers.size ≤ T.heap.servers.size := by
      rcases hstep.servers_eq with heq | ⟨added, -, heq⟩
      · exact Nat.le_of_eq (congrArg Array.size heq.symm)
      · rw [heq, Array.size_push]
        exact Nat.le_succ _
    have hbefore : l ∈ S.world.listeners →
        l.server < T.heap.servers.size ∧ .listens l.server ∈ es ++ new := by
      intro hl
      obtain ⟨hlt, hmem⟩ := h.listening l hl
      exact ⟨Nat.lt_of_lt_of_le hlt hle, List.mem_append_left _ hmem⟩
    rcases hstep.listeners_eq with heq | ⟨added, rfl, hlt, heq⟩
    · rw [heq] at hl
      exact hbefore hl
    · rw [heq] at hl
      rcases List.mem_cons.mp hl with rfl | hl
      · exact ⟨Nat.lt_of_lt_of_le hlt hle, List.mem_append_right _ (List.mem_singleton.mpr rfl)⟩
      · exact hbefore hl
  talks k hk := by
    by_cases hlt : k < S.heap.connections.size
    · obtain ⟨server, s, status, hs, hmem, htalk, hfits⟩ := h.talks k hlt
      obtain ⟨next, htalk, hfits⟩ :=
        htalk.step h.orderly hstep hlt (Heap.handler_eq hs) hfits
      refine ⟨server, s, next, hstep.server_of hs, List.mem_append_left _ hmem, ?_, hfits⟩
      rwa [conversation_append]
    · -- The connection is new. Its client has reached a server that waits.
      rcases hstep.connections_eq with heq | ⟨i, ref, text, server, hsend, hconnect, rfl, rfl⟩
      · exact absurd (heq ▸ hk) hlt
      · rw [State.heap_onHeap, State.heap_asking, Heap.size_connections_dial] at hk
        obtain rfl : k = S.heap.connections.size := by omega
        obtain ⟨l, hl, rfl⟩ := S.network.reaches hconnect
        obtain ⟨hserver, hmem⟩ := h.listening l hl
        obtain ⟨hnone, hturn⟩ := h.unused _ (Nat.le_refl _)
        refine ⟨l.server, S.heap.servers[l.server], .idle, Array.getElem?_eq_getElem hserver,
          List.mem_append_left _ hmem, ?_, Fits.dials h.orderly.asking hsend l.server _ hturn⟩
        rw [conversation_append, hnone, conversation_of_at rfl]
        exact .dials i
  unused k hk := by
    obtain ⟨hnone, hturn⟩ := h.unused k (Nat.le_trans hstep.connections_le hk)
    obtain ⟨hnew, heq⟩ := hstep.unused h.orderly hk
    rw [conversation_append, hnone, hnew]
    exact ⟨rfl, heq.trans hturn⟩

end Sound

theorem Run.sound (h : Run C es S) : Sound C es S := by
  induction h with
  | start h => exact .start h
  | step _ hstep ih => exact ih.step hstep

end Parlance.Channel
