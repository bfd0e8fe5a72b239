import Parlance.Connection
import Parlance.Program.Stmt
import Parlance.Table
import Parlance.Value

namespace Parlance

-- The address of a channel.
structure Endpoint where
  host : String
  port : UInt16
  deriving DecidableEq

def Endpoint.text (e : Endpoint) : String :=
  s!"{e.host}:{e.port.toNat}"

-- The side of a channel that sends. It has a connection from the first request on, and is held
-- while an operation on it is under way.
structure Client where
  endpoint : Endpoint
  connection : Option Nat
  held : Bool

-- A client that has no connection yet.
def Client.fresh (endpoint : Endpoint) : Client :=
  ⟨endpoint, none, false⟩

-- The side of a channel that answers, by calling a function.
structure Server where
  description : String
  endpoint : Endpoint
  handler : Function

-- All collections and channels of a program, and the connections that there have been.
structure Heap where
  lists : Array (Array Value)
  dicts : Array (Table Value)
  clients : Array Client
  servers : Array Server
  connections : Array Connection

-- A value that is not in the heap yet: a new collection is given by what it holds.
inductive Draft where
  | value (v : Value)
  | list (items : Array Value)
  | dict (entries : Table Value)

namespace Heap

def empty : Heap :=
  ⟨#[], #[], #[], #[], #[]⟩

def list (h : Heap) (ref : Nat) : Array Value :=
  h.lists.getD ref #[]

def dict (h : Heap) (ref : Nat) : Table Value :=
  h.dicts.getD ref Table.empty

def client (h : Heap) (ref : Nat) : Client :=
  h.clients.getD ref (.fresh ⟨"", 0⟩)

def server (h : Heap) (ref : Nat) : Server :=
  h.servers.getD ref ⟨"", ⟨"", 0⟩, ⟨"", .void, [], [], 0⟩⟩

def connection (h : Heap) (k : Nat) : Connection :=
  h.connections.getD k (.fresh 0)

-- Gives a new collection a place.
def place (h : Heap) : Draft → Value × Heap
  | .value v => (v, h)
  | .list items => (.list h.lists.size, { h with lists := h.lists.push items })
  | .dict entries => (.dict h.dicts.size, { h with dicts := h.dicts.push entries })

def addClient (h : Heap) (endpoint : Endpoint) : Value × Heap :=
  (.client h.clients.size, { h with clients := h.clients.push (.fresh endpoint) })

def addServer (h : Heap) (server : Server) : Value × Heap :=
  (.server h.servers.size, { h with servers := h.servers.push server })

def onClient (h : Heap) (ref : Nat) (f : Client → Client) : Heap :=
  { h with clients := h.clients.modify ref f }

def onConnection (h : Heap) (k : Nat) (f : Connection → Connection) : Heap :=
  { h with connections := h.connections.modify k f }

-- Takes a client for an operation, or gives it back.
def hold (h : Heap) (ref : Nat) (held : Bool) : Heap :=
  h.onClient ref fun c => { c with held }

-- Gives a client a new connection to a server.
def dial (h : Heap) (ref server : Nat) : Heap :=
  { h.onClient ref fun c => { c with connection := some h.connections.size } with
    connections := h.connections.push (.fresh server) }

-- A client gives up the connection that it has.
def leave (h : Heap) (ref : Nat) : Heap :=
  let left := (h.client ref).connection.elim h fun k => h.onConnection k .leave
  left.onClient ref fun c => { c with connection := none }

def setList (h : Heap) (ref : Nat) (items : Array Value) : Heap :=
  { h with lists := h.lists.set! ref items }

def append (h : Heap) (ref : Nat) (v : Value) : Heap :=
  { h with lists := h.lists.modify ref (·.push v) }

theorem client_onClient_of_ne {h : Heap} {ref other : Nat} (hne : other ≠ ref)
    (f : Client → Client) : (h.onClient ref f).client other = h.client other := by
  simp [client, onClient, Array.getD_eq_getD_getElem?, Array.getElem?_modify, hne.symm]

theorem client_onClient_self {h : Heap} {ref : Nat} (hr : ref < h.clients.size)
    (f : Client → Client) : (h.onClient ref f).client ref = f (h.client ref) := by
  simp [client, onClient, Array.getD_eq_getD_getElem?, Array.getElem_modify, hr]

theorem connection_onConnection_of_ne {h : Heap} {k other : Nat} (hne : other ≠ k)
    (f : Connection → Connection) :
    (h.onConnection k f).connection other = h.connection other := by
  simp [connection, onConnection, Array.getD_eq_getD_getElem?, Array.getElem?_modify, hne.symm]

theorem connection_onConnection_self {h : Heap} {k : Nat} (hk : k < h.connections.size)
    (f : Connection → Connection) : (h.onConnection k f).connection k = f (h.connection k) := by
  simp [connection, onConnection, Array.getD_eq_getD_getElem?, Array.getElem_modify, hk]

-- There is no client at a place beyond the last one, and a change of it changes nothing.
theorem onClient_of_le {h : Heap} {ref : Nat} (hr : h.clients.size ≤ ref) (f : Client → Client) :
    h.onClient ref f = h := by
  have hsame : h.clients.modify ref f = h.clients := by
    apply Array.ext_getElem?
    intro i
    rw [Array.getElem?_modify]
    split
    · next hi => simp [← hi, hr]
    · rfl
  simp [onClient, hsame]

-- What a change leaves alone.
theorem onClient_congr {β : Type} {p : Client → β} {f : Client → Client}
    (hf : ∀ c, p (f c) = p c) (h : Heap) (ref other : Nat) :
    p ((h.onClient ref f).client other) = p (h.client other) := by
  by_cases hne : other = ref
  · subst hne
    by_cases hr : other < h.clients.size
    · rw [client_onClient_self hr, hf]
    · rw [onClient_of_le (Nat.le_of_not_lt hr)]
  · rw [client_onClient_of_ne hne]

theorem held_hold {h : Heap} {ref other : Nat}
    (hheld : ((h.hold ref true).client other).held = true) :
    other = ref ∨ (h.client other).held = true := by
  by_cases hne : other = ref
  · exact .inl hne
  · exact .inr (client_onClient_of_ne hne _ ▸ hheld)

-- A client that has been given back is not held, and the others are as they were.
theorem held_release {h : Heap} {ref other : Nat}
    (hheld : ((h.hold ref false).client other).held = true) :
    other ≠ ref ∧ (h.client other).held = true := by
  by_cases hne : other = ref
  · subst hne
    by_cases hr : other < h.clients.size
    · rw [hold, client_onClient_self hr] at hheld
      cases hheld
    · rw [hold, onClient_of_le (Nat.le_of_not_lt hr), client, Array.getD_eq_getD_getElem?,
        Array.getElem?_eq_none (Nat.le_of_not_lt hr)] at hheld
      cases hheld
  · exact ⟨hne, client_onClient_of_ne hne _ ▸ hheld⟩

theorem client_leave (h : Heap) (ref other : Nat) :
    (h.leave ref).client other =
      if other = ref then { h.client ref with connection := none } else h.client other := by
  have hsame : ((h.client ref).connection.elim h fun k => h.onConnection k .leave).clients =
      h.clients := by
    cases (h.client ref).connection <;> rfl
  unfold leave
  split
  · next hother =>
    subst hother
    by_cases hr : other < h.clients.size
    · rw [client_onClient_self (by rwa [hsame]), client, hsame]
      rfl
    · have hle := Nat.le_of_not_lt hr
      rw [onClient_of_le (by rwa [hsame])]
      simp [client, Array.getElem?_eq_none hle, Client.fresh]
  · next hother =>
    rw [client_onClient_of_ne hother, client, hsame]
    rfl

-- A client that leaves loses its connection, and nothing else.
theorem leave_congr {β : Type} {p : Client → β}
    (hp : ∀ c : Client, p { c with connection := none } = p c) (h : Heap) (ref other : Nat) :
    p ((h.leave ref).client other) = p (h.client other) := by
  rw [client_leave]
  split
  · next hother => rw [hp, hother]
  · rfl

theorem held_leave (h : Heap) (ref other : Nat) :
    ((h.leave ref).client other).held = (h.client other).held :=
  leave_congr (p := Client.held) (fun _ => rfl) h ref other

theorem held_dial (h : Heap) (ref server other : Nat) :
    ((h.dial ref server).client other).held = (h.client other).held :=
  onClient_congr (p := Client.held) (f := fun c => { c with connection := h.connections.size })
    (fun _ => rfl) h ref other

theorem held_addClient {h : Heap} {endpoint : Endpoint} {ref : Nat}
    (hheld : ((h.addClient endpoint).2.client ref).held = true) :
    (h.client ref).held = true := by
  simp only [client, addClient, Array.getD_eq_getD_getElem?, Array.getElem?_push] at hheld ⊢
  split at hheld
  · cases hheld
  · exact hheld

theorem connection_hold (h : Heap) (ref : Nat) (held : Bool) (other : Nat) :
    ((h.hold ref held).client other).connection = (h.client other).connection :=
  onClient_congr (p := Client.connection) (f := fun c => { c with held }) (fun _ => rfl) h ref
    other

-- Giving up a connection is no other thing for a client that is held meanwhile.
theorem leave_of_held {h : Heap} {ref : Nat} (hheld : (h.client ref).held = false) :
    ((h.hold ref true).leave ref).hold ref false = h.leave ref := by
  have hclients : ((h.clients.modify ref fun c => { c with held := true }).modify ref fun c =>
      { c with connection := none }).modify ref (fun c => { c with held := false }) =
      h.clients.modify ref fun c => { c with connection := none } := by
    apply Array.ext_getElem?
    intro i
    simp only [Array.getElem?_modify]
    split
    · next hi =>
      subst hi
      cases hc : h.clients[ref]? with
      | none => rfl
      | some c =>
        simp only [client, Array.getD_eq_getD_getElem?, hc, Option.getD_some] at hheld
        simp [hheld]
    · rfl
  unfold leave
  rw [connection_hold]
  cases (h.client ref).connection <;>
    simp only [Option.elim, hold, onClient, onConnection, hclients]

theorem servers_leave (h : Heap) (ref : Nat) : (h.leave ref).servers = h.servers := by
  unfold leave
  cases (h.client ref).connection <;> rfl

end Heap

-- The value that a variable of a type has before anything is assigned to it.
def Value.zero : Ty → Draft
  | .number => .value (.int 0)
  | .string => .value (.str "")
  | .bool => .value (.bool false)
  | .list => .list #[]
  | .dict => .dict Table.empty
  | .func | .void | .client | .server => .value .void

namespace Heap

def isTrue (h : Heap) : Value → Bool
  | .bool b => b
  | .void => false
  | .int n => n != 0
  | .float x => x != 0.0
  | .str s => !s.isEmpty
  | .list ref => !(h.list ref).isEmpty
  | .dict ref => !(h.dict ref).isEmpty
  | .client _ => true
  | .server _ => true

-- What a loop over a value runs over.
def iterate (h : Heap) : Value → Except Stop (List Value)
  | .list ref => .ok (h.list ref).toList
  | .dict ref => .ok ((h.dict ref).keys.map .str)
  | .str s => .ok (s.toList.map fun c => .str c.toString)
  | v => refuse (.notIterable v.ty)

end Heap

end Parlance
