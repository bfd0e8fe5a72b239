import Parlance.Eval.Call

namespace Parlance.Eval

open Exec

-- An operation holds its client until it is over. Who waits for a client that is held waits
-- forever, since what holds it waits as well.
def holding {α : Type} (ref : Nat) (x : Exec α) : Exec α := fun w =>
  if (w.heap.client ref).held then .error .outOfFuel w
  else
    match x { w with heap := w.heap.hold ref true } with
    | .ok a w => .ok a { w with heap := w.heap.hold ref false }
    | .error s w => .error s { w with heap := w.heap.hold ref false }

section Holding

variable {α : Type} {ref : Nat} {x : Exec α} {w t : World}

theorem holding_eq_ok {a : α} (h : holding ref x w = .ok a t) :
    (w.heap.client ref).held = false ∧ ∃ u, x { w with heap := w.heap.hold ref true } = .ok a u ∧
      t = { u with heap := u.heap.hold ref false } := by
  unfold holding at h
  split at h
  · cases h
  · next hheld =>
    cases hx : x { w with heap := w.heap.hold ref true } with
    | ok b u =>
      rw [hx] at h
      cases h
      exact ⟨Bool.eq_false_iff.mpr hheld, u, rfl, rfl⟩
    | error s u =>
      rw [hx] at h
      cases h

theorem holding_eq_error {s : Stop} (h : holding ref x w = .error s t) :
    (w.heap.client ref).held = true ∧ s = .outOfFuel ∧ t = w ∨
      (w.heap.client ref).held = false ∧
        ∃ u, x { w with heap := w.heap.hold ref true } = .error s u ∧
          t = { u with heap := u.heap.hold ref false } := by
  unfold holding at h
  split at h
  · next hheld =>
    cases h
    exact .inl ⟨hheld, rfl, rfl⟩
  · next hheld =>
    cases hx : x { w with heap := w.heap.hold ref true } with
    | ok b u =>
      rw [hx] at h
      cases h
    | error s' u =>
      rw [hx] at h
      cases h
      exact .inr ⟨Bool.eq_false_iff.mpr hheld, u, rfl, rfl⟩

end Holding

-- What comes next in one direction of a connection. Who waits for what nobody writes waits
-- forever.
def awaiting (k : Nat) (read? : Connection → Option (Option String × Connection)) :
    Exec (Option String) := fun w =>
  match read? (w.heap.connection k) with
  | some (text, c) => .ok text { w with heap := w.heap.onConnection k fun _ => c }
  | none => .error .outOfFuel w

def onConnection (k : Nat) (f : Connection → Connection) : Exec Unit :=
  modify fun w => { w with heap := w.heap.onConnection k f }

-- The connection of a client. A client without one connects first.
def connected (ref : Nat) : Exec Nat := do
  let w ← get
  let client := w.heap.client ref
  match client.connection with
  | some k => return k
  | none =>
    match ← ask fun host turn => host.network.connect turn w.listeners client.endpoint with
    | .ok server =>
      modify fun w => { w with heap := w.heap.dial ref server }
      return w.heap.connections.size
    | .error reason => fault (.cannotConnect client.endpoint.text reason)

-- Leaves a client without a connection.
def disconnect (ref : Nat) : Exec Unit :=
  modify fun w => { w with heap := w.heap.leave ref }

-- The answer of a server, if its handler does not fail. Handlers run under the globals.
def answer? (ev : Evaluators) (server : Nat) (request : String) : Exec (Option String) := do
  let w ← get
  match ← attempt (ev.call globals (w.heap.server server).handler [.str request]) with
  | .ok v => return some (← display v)
  | .error _ => return none

-- A server answers one request that has come over a connection. It hangs up if its handler
-- fails, and when the client has gone.
def turn (ev : Evaluators) (k : Nat) : Exec Unit := do
  match ← awaiting k Connection.fetch? with
  | none => onConnection k .hangUp
  | some text =>
    let w ← get
    match ← answer? ev (w.heap.connection k).server text with
    | some reply => onConnection k (·.reply reply)
    | none => onConnection k .hangUp

-- Waits for the answer to a request. A client whose server has hung up has no connection any
-- more.
def receive (ref k : Nat) : Exec String := do
  match ← awaiting k Connection.collect? with
  | some reply => return reply
  | none =>
    disconnect ref
    let w ← get
    fault (.closedByPeer (w.heap.client ref).endpoint.text)

-- Sends a request over a connection.
def exchange (ev : Evaluators) (ref k : Nat) (text : String) : Exec String := do
  onConnection k (·.post text)
  turn ev k
  receive ref k

def request (ev : Evaluators) (ref : Nat) (text : String) : Exec String :=
  holding ref do
    let k ← connected ref
    exchange ev ref k text

-- Makes a server wait for clients.
def serve (ref : Nat) : Exec Unit := do
  let w ← get
  let endpoint := (w.heap.server ref).endpoint
  match ← ask fun host turn => host.network.refusal? turn w.listeners endpoint with
  | none => modify fun w => { w with listeners := ⟨endpoint, ref⟩ :: w.listeners }
  | some reason => fault (.cannotListen endpoint.text reason)

theorem serve_apply (ref : Nat) (w : World) :
    serve ref w =
      match w.options.host.network.refusal? w.asked w.listeners (w.heap.server ref).endpoint with
      | none => .ok () { w with
          asked := w.asked + 1
          listeners := ⟨(w.heap.server ref).endpoint, ref⟩ :: w.listeners }
      | some reason => .error (.fault (.runtime (.cannotListen (w.heap.server ref).endpoint.text
          reason))) { w with asked := w.asked + 1 } := by
  rw [serve, bind_apply, get_apply]
  simp only [bind_apply, ask_apply]
  cases w.options.host.network.refusal? w.asked w.listeners (w.heap.server ref).endpoint <;> rfl

end Parlance.Eval
