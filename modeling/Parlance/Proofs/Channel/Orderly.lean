import Parlance.Proofs.Channel.System

namespace Parlance

namespace Heap

variable {h : Heap} {ref : Nat}

@[simp]
theorem size_clients_onClient (h : Heap) (ref : Nat) (f : Client → Client) :
    (h.onClient ref f).clients.size = h.clients.size :=
  Array.size_modify

@[simp]
theorem size_clients_leave (h : Heap) (ref : Nat) :
    (h.leave ref).clients.size = h.clients.size := by
  rw [leave, size_clients_onClient]
  cases (h.client ref).connection <;> rfl

@[simp]
theorem size_connections_leave (h : Heap) (ref : Nat) :
    (h.leave ref).connections.size = h.connections.size := by
  unfold leave
  cases (h.client ref).connection with
  | none => rfl
  | some k => exact Array.size_modify

@[simp]
theorem size_connections_onConnection (h : Heap) (k : Nat) (f : Connection → Connection) :
    (h.onConnection k f).connections.size = h.connections.size :=
  Array.size_modify

-- The connection of a client, and who holds it, after each operation.
theorem linked_dial (href : ref < h.clients.size) (server other : Nat) :
    ((h.dial ref server).client other).connection =
      if other = ref then some h.connections.size else (h.client other).connection := by
  have hclient : (h.dial ref server).client other =
      (h.onClient ref fun c => { c with connection := some h.connections.size }).client other := rfl
  rw [hclient]
  split
  · next hother => rw [hother, client_onClient_self href]
  · next hother => rw [client_onClient_of_ne hother]

theorem linked_leave (h : Heap) (ref other : Nat) :
    ((h.leave ref).client other).connection =
      if other = ref then none else (h.client other).connection := by
  rw [client_leave]
  split <;> rfl

theorem held_hold_self (href : ref < h.clients.size) (held : Bool) (other : Nat) :
    ((h.hold ref held).client other).held =
      if other = ref then held else (h.client other).held := by
  split
  · next hother => rw [hother, hold, client_onClient_self href]
  · next hother => rw [hold, client_onClient_of_ne hother]

@[simp]
theorem size_connections_dial (h : Heap) (ref server : Nat) :
    (h.dial ref server).connections.size = h.connections.size + 1 :=
  Array.size_push _

theorem handler_eq {server : Nat} {s : Server} (hs : h.servers[server]? = some s) :
    (h.server server).handler = s.handler := by
  rw [Heap.server, Array.getD_eq_getD_getElem?, hs, Option.getD_some]

theorem client_addClient_of_lt (href : ref < h.clients.size) (endpoint : Endpoint) :
    (h.addClient endpoint).2.client ref = h.client ref := by
  simp [client, addClient, Array.getElem?_push, Nat.ne_of_lt href]

theorem linked_addClient (h : Heap) (endpoint : Endpoint) (ref : Nat) :
    ((h.addClient endpoint).2.client ref).connection = (h.client ref).connection := by
  by_cases href : ref < h.clients.size
  · rw [client_addClient_of_lt href]
  · simp only [client, addClient, Array.getD_eq_getD_getElem?, Array.getElem?_push,
      Array.getElem?_eq_none (Nat.le_of_not_lt href)]
    split <;> rfl

end Heap

namespace Channel

-- Every client that is held is held by one send, and every connection has at most one client.
structure Orderly (S : State) : Prop where
  active : ∀ i ref, (S.sends i).client? = some ref →
    ref < S.heap.clients.size ∧ (S.heap.client ref).held = true
  alone : ∀ i j ref, (S.sends i).client? = some ref → (S.sends j).client? = some ref → i = j
  range : ∀ ref k, (S.heap.client ref).connection = some k → k < S.heap.connections.size
  owner : ∀ ref other k, (S.heap.client ref).connection = some k →
    (S.heap.client other).connection = some k → ref = other
  waiting : ∀ i ref text k, S.sends i = .waiting ref text k →
    (S.heap.client ref).connection = some k

namespace Orderly

variable {C : Conduct} {S T : State} {new : List Event} {i ref : Nat}

theorem start {w : World} (h : w.Unconnected) : Orderly (.start w) := by
  have hlink : ∀ ref, (w.heap.client ref).connection = none := by
    simp [Heap.client, h.clients, Client.fresh]
  constructor <;> simp [Phase.client?, hlink]

-- The connections of clients and what holds them are the same.
theorem congr (h : Orderly S) (hsends : T.sends = S.sends)
    (hsize : T.heap.clients.size = S.heap.clients.size)
    (hclient : ∀ ref, T.heap.client ref = S.heap.client ref)
    (hsize' : T.heap.connections.size = S.heap.connections.size) : Orderly T := by
  obtain ⟨hactive, halone, hrange, howner, hwaiting⟩ := h
  constructor <;> simp only [hsends, hsize, hclient, hsize'] <;> assumption

-- A new client has no connection, and no send holds it.
theorem opens (h : Orderly S) (endpoint : Endpoint) :
    Orderly (S.onHeap fun h => (h.addClient endpoint).2) := by
  obtain ⟨hactive, halone, hrange, howner, hwaiting⟩ := h
  have hsize : (S.heap.addClient endpoint).2.clients.size = S.heap.clients.size + 1 :=
    Array.size_push _
  have hsize' : (S.heap.addClient endpoint).2.connections = S.heap.connections := rfl
  have hclient := fun ref (href : ref < S.heap.clients.size) =>
    Heap.client_addClient_of_lt href endpoint
  have hlink := S.heap.linked_addClient endpoint
  constructor <;> simp only [State.heap_onHeap, State.sends_onHeap] <;> grind

-- No other send has the client, which was free.
theorem begins (h : Orderly S) (text : String) (href : ref < S.heap.clients.size)
    (hfree : (S.heap.client ref).held = false) :
    Orderly ((S.onHeap (·.hold ref true)).send i (.started ref text)) := by
  obtain ⟨hactive, halone, hrange, howner, hwaiting⟩ := h
  have hsize : (S.heap.hold ref true).clients.size = S.heap.clients.size := Array.size_modify
  have hsize' : (S.heap.hold ref true).connections = S.heap.connections := rfl
  have hlink := S.heap.connection_hold ref true
  have hheld := Heap.held_hold_self href true
  constructor <;>
    simp only [State.heap_send, State.sends_send, State.heap_onHeap, State.sends_onHeap,
      update] <;>
    grind [Phase.client?]

theorem asking (h : Orderly S) : Orderly S.asking :=
  h.congr rfl rfl (fun _ => rfl) rfl

-- The number of a new connection is not the one of another client's connection, and no other
-- send waits for an answer to the client.
theorem dials (h : Orderly S) {text : String} (server : Nat)
    (hsend : S.sends i = .started ref text) : Orderly (S.onHeap (·.dial ref server)) := by
  obtain ⟨hactive, halone, hrange, howner, hwaiting⟩ := h
  have href := (hactive i ref (by rw [hsend, Phase.client?])).1
  have hsize : (S.heap.dial ref server).clients.size = S.heap.clients.size := Array.size_modify
  have hsize' : (S.heap.dial ref server).connections.size = S.heap.connections.size + 1 :=
    Array.size_push _
  have hlink := Heap.linked_dial href server
  have hheld := S.heap.held_dial ref server
  constructor <;> simp only [State.heap_onHeap, State.sends_onHeap] <;> grind [Phase.client?]

theorem posts (h : Orderly S) {k : Nat} {text : String} (f : Connection → Connection)
    (hsend : S.sends i = .started ref text) (hsome : (S.heap.client ref).connection = some k) :
    Orderly ((S.onHeap (·.onConnection k f)).send i (.waiting ref text k)) := by
  obtain ⟨hactive, halone, hrange, howner, hwaiting⟩ := h
  have hclient : ∀ other, (S.heap.onConnection k f).client other = S.heap.client other :=
    fun _ => rfl
  have hsize := S.heap.size_connections_onConnection k f
  have hsize' : (S.heap.onConnection k f).clients = S.heap.clients := rfl
  constructor <;>
    simp only [State.heap_send, State.sends_send, State.heap_onHeap, State.sends_onHeap,
      update] <;>
    grind [Phase.client?]

-- No send waits for an answer to a client that is free.
theorem closes (h : Orderly S) (hfree : (S.heap.client ref).held = false) :
    Orderly (S.onHeap (·.leave ref)) := by
  obtain ⟨hactive, halone, hrange, howner, hwaiting⟩ := h
  have hsize := S.heap.size_clients_leave ref
  have hsize' := S.heap.size_connections_leave ref
  have hlink := S.heap.linked_leave ref
  have hheld := S.heap.held_leave ref
  constructor <;> simp only [State.heap_onHeap, State.sends_onHeap] <;> grind [Phase.client?]

-- The client of a send that is over is free again. It can have lost its connection.
theorem finishes (h : Orderly S) (hsend : (S.sends i).client? = some ref)
    (hsends : T.sends = update S.sends i .done)
    (hsize : T.heap.clients.size = S.heap.clients.size)
    (hclient : ∀ other, other ≠ ref → T.heap.client other = S.heap.client other)
    (hlink : ∀ k, (T.heap.client ref).connection = some k →
      (S.heap.client ref).connection = some k)
    (hsize' : T.heap.connections.size = S.heap.connections.size) : Orderly T := by
  have hother : ∀ j other, (T.sends j).client? = some other →
      other ≠ ref ∧ (S.sends j).client? = some other := by
    intro j other hj
    rw [hsends] at hj
    by_cases hne : j = i
    · rw [hne, update_self] at hj
      cases hj
    · rw [update_of_ne hne] at hj
      refine ⟨fun heq => hne ?_, hj⟩
      exact h.alone j i other hj (heq ▸ hsend)
  have hlinks : ∀ other k, (T.heap.client other).connection = some k →
      (S.heap.client other).connection = some k := by
    intro other k hk
    by_cases hne : other = ref
    · subst hne
      exact hlink k hk
    · rwa [← hclient other hne]
  constructor
  · intro j other hj
    obtain ⟨hne, hj⟩ := hother j other hj
    rw [hsize, hclient other hne]
    exact h.active j other hj
  · intro j j' other hj hj'
    exact h.alone j j' other (hother j other hj).2 (hother j' other hj').2
  · intro other k hk
    rw [hsize']
    exact h.range other k (hlinks other k hk)
  · intro r r' k hr hr'
    exact h.owner r r' k (hlinks r k hr) (hlinks r' k hr')
  · intro j other text k hj
    obtain ⟨hne, -⟩ := hother j other (by rw [hj, Phase.client?])
    rw [hclient other hne]
    refine h.waiting j other text k ?_
    rw [hsends] at hj
    by_cases hji : j = i
    · rw [hji, update_self] at hj
      cases hj
    · rwa [update_of_ne hji] at hj

theorem ends (h : Orderly S) (k : Nat) (reply : Option String) : Orderly (S.ends k reply) := by
  cases reply <;>
    exact h.congr rfl rfl (fun _ => rfl) (S.heap.size_connections_onConnection _ _)

theorem step (h : Orderly S) (hstep : Step C S new T) : Orderly T := by
  cases hstep with
  | changes happart =>
    have hclient : ∀ ref, Heap.client _ ref = S.heap.client ref :=
      fun ref => congrArg (fun cs : Array Client => cs.getD ref _) happart.clients
    exact h.congr rfl (congrArg _ happart.clients) hclient (congrArg _ happart.connections)
  | opens endpoint => exact h.opens endpoint
  | offers s => exact h.congr rfl rfl (fun _ => rfl) rfl
  | listens haccepted => exact h.congr rfl rfl (fun _ => rfl) rfl
  | begins text hidle href hfree => exact h.begins text href hfree
  | refused hsend hnone hconnect =>
    next i ref text reason =>
    refine h.finishes (congrArg Phase.client? hsend) rfl Array.size_modify ?_ ?_ rfl
    · exact fun other hne => Heap.client_onClient_of_ne hne _
    · exact fun k hk => S.heap.connection_hold ref false ref ▸ hk
  | dials hsend hnone hconnect => exact h.asking.dials _ hsend
  | posts hsend hsome => exact h.posts _ hsend hsome
  | ends hk hturn hr hworld => exact h.ends _ _
  | invokes | departs =>
    exact h.congr rfl rfl (fun _ => rfl) (S.heap.size_connections_onConnection _ _)
  | returns hsend hcollect =>
    next i ref k text reply c =>
    refine h.finishes (congrArg Phase.client? hsend) rfl Array.size_modify ?_ ?_ ?_
    · exact fun other hne => Heap.client_onClient_of_ne hne _
    · exact fun l hl => Heap.connection_hold _ ref false ref ▸ hl
    · exact S.heap.size_connections_onConnection _ _
  | loses hsend hcollect =>
    next i ref k text c =>
    have hleave := (S.heap.onConnection k fun _ => c).client_leave ref
    refine h.finishes (congrArg Phase.client? hsend) rfl ?_ ?_ ?_ ?_
    · exact Array.size_modify.trans (Heap.size_clients_leave _ ref)
    · intro other hne
      exact (Heap.client_onClient_of_ne hne _).trans ((hleave other).trans (if_neg hne))
    · intro l hl
      rw [State.heap_send, State.heap_onHeap, Heap.connection_hold, hleave, if_pos rfl] at hl
      cases hl
    · exact (Heap.size_connections_leave _ ref).trans (Heap.size_connections_onConnection _ _ _)
  | closes hfree => exact h.closes hfree

end Orderly

end Channel

end Parlance
