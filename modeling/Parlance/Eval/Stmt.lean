import Parlance.Eval.Expr

namespace Parlance

namespace Eval

open Exec

-- Runs statements in a new frame.
def inFrame (ev : Evaluators) (env : Nat) (body : List Stmt) : Exec Signal :=
  withFrame env fun scope => block ev scope body

def declaration (ev : Evaluators) (env : Nat) (d : Declaration) : Exec Signal := do
  let v ← match d.init with
    | some e => ev.expr env e
    | none => place (Value.zero d.ty)
  define env d.name.lexeme v
  return .normal

def ret (ev : Evaluators) (env : Nat) (value : Option Expr) : Exec Signal := do
  match value with
  | some e => return .ret (← ev.expr env e)
  | none => return .ret .void

def branch (ev : Evaluators) (env : Nat) (condition : Expr) (yes : List Stmt)
    (no : Option (List Stmt)) : Exec Signal := do
  let v ← ev.expr env condition
  if ← isTrue v then inFrame ev env yes
  else
    match no with
    | some no => inFrame ev env no
    | none => return .normal

-- Repeats a block as long as a condition holds. The number bounds the repetitions.
def loop (ev : Evaluators) (env : Nat) (condition : Expr) (body : List Stmt) :
    Nat → Exec Signal
  | 0 => outOfFuel
  | n + 1 => do
    let v ← ev.expr env condition
    if ← isTrue v then
      match ← inFrame ev env body with
      | .normal | .cont => loop ev env condition body n
      | .brk => return .normal
      | .ret v => return .ret v
    else
      return .normal

-- Runs a block once for every item, each time in a new frame.
def eachItem (ev : Evaluators) (env : Nat) (iterator : String) (body : List Stmt) :
    List Value → Exec Signal
  | [] => pure .normal
  | item :: rest => do
    let signal ← withFrame env fun scope => do
      define scope iterator item
      block ev scope body
    match signal with
    | .normal | .cont => eachItem ev env iterator body rest
    | .brk => return .normal
    | .ret v => return .ret v

def each (ev : Evaluators) (env : Nat) (iterator : Token) (iterable : Expr)
    (body : List Stmt) : Exec Signal := do
  let source ← ev.expr env iterable
  let values ← atLine iterator.line (reading fun h => h.iterate source)
  eachItem ev env iterator.lexeme body values

-- The expressions that a parallel block runs.
def workers (body : List Stmt) : List Expr :=
  body.filterMap fun
    | .expression e => some e
    | _ => none

-- Runs workers one after another up to the first that fails.
def inOrder (ev : Evaluators) (env : Nat) : List Expr → Exec Unit
  | [] => pure ()
  | e :: rest => do
    let _ ← ev.expr env e
    inOrder ev env rest

-- Runs all workers, and gives the first failure in their order. Of all the ways in which workers
-- that run at once can take turns, this is the one in which each runs to its end before the next
-- one starts, and no other one is described.
def together (ev : Evaluators) (env : Nat) : List Expr → Exec (Option Fault)
  | [] => pure none
  | e :: rest => do
    match ← attempt (ev.expr env e) with
    | .ok _ => together ev env rest
    | .error f =>
      let _ ← together ev env rest
      return some f

def parallel (ev : Evaluators) (env : Nat) (body : List Stmt) : Exec Unit := do
  if (← get).options.parallel then
    match ← together ev env (workers body) with
    | some f => stop (.fault f)
    | none => return
  else
    inOrder ev env (workers body)

def asPort (n : Int64) : Except Stop UInt16 :=
  if 0 ≤ n.toInt ∧ n.toInt < 65536 then .ok (UInt16.ofNat n.toInt.toNat)
  else refuse (.portRange n.toInt)

def endpoint (ev : Evaluators) (env : Nat) (host port : Expr) : Exec Endpoint := do
  let host ← ev.expr env host
  let host ← require (host.asText "channel host")
  let port ← ev.expr env port
  let port ← require (port.asInt "channel port" >>= asPort)
  return ⟨host, port⟩

def client (ev : Evaluators) (env : Nat) (name : String) (host port : Expr) (line : Nat) :
    Exec Signal := do
  let e ← atLine line (endpoint ev env host port)
  let v ← onHeap fun h => h.addClient e
  define env name v
  return .normal

def server (ev : Evaluators) (env : Nat) (name : String) (handler : Token)
    (description host port : Expr) (line : Nat) : Exec Signal := do
  match (← get).functions.get? handler.lexeme with
  | none => faultAt (.undefinedFunction handler.lexeme) line
  | some f =>
    let d ← ev.expr env description
    let d ← atLine line (require (d.asText "channel description"))
    let e ← atLine line (endpoint ev env host port)
    let v ← onHeap fun h => h.addServer ⟨d, e, f⟩
    define env name v
    return .normal

-- Runs a statement, given how to evaluate what it contains. The number bounds the
-- repetitions of a loop.
def stmt (ev : Evaluators) (bound : Nat) (env : Nat) (s : Stmt) : Exec Signal :=
  match s with
  | .expression e => do
    let _ ← ev.expr env e
    return .normal
  | .declaration d => declaration ev env d
  | .function name returns params body line => do
    modify fun w =>
      { w with functions := w.functions.insert name ⟨name, returns, params, body, line⟩ }
    return .normal
  | .ret value _ => ret ev env value
  | .branch condition yes no => branch ev env condition yes no
  | .loop condition body => loop ev env condition body bound
  | .each d iterable body => each ev env d.name iterable body
  | .brk _ => pure .brk
  | .cont _ => pure .cont
  | .seq body => inFrame ev env body
  | .par body line => do
    atLine line (parallel ev env body)
    return .normal
  | .client name host port line => client ev env name host port line
  | .server name handler description host port line =>
    server ev env name handler description host port line

end Eval

mutual

-- The value of an expression. The number bounds the depth of the evaluation and the length
-- of its loops; more of it changes no answer.
def evalExpr : Nat → Nat → Expr → Exec Value
  | 0, _, _ => Exec.outOfFuel
  | n + 1, env, e =>
    Exec.atLine e.line (Eval.expr ⟨evalExpr n, execStmt n, callFunction n, runBody n⟩ env e)

-- Runs a statement in a frame.
def execStmt : Nat → Nat → Stmt → Exec Signal
  | 0, _, _ => Exec.outOfFuel
  | n + 1, env, s => Eval.stmt ⟨evalExpr n, execStmt n, callFunction n, runBody n⟩ n env s

-- Calls a function from a frame.
def callFunction : Nat → Nat → Function → List Value → Exec Value
  | 0, _, _, _ => Exec.outOfFuel
  | n + 1, env, f, args => Eval.call ⟨evalExpr n, execStmt n, callFunction n, runBody n⟩ env f args

-- Runs the body of a function in the frame of its parameters.
def runBody : Nat → Nat → Function → Exec Signal
  | 0, _, _ => Exec.outOfFuel
  | n + 1, scope, f => Eval.block ⟨evalExpr n, execStmt n, callFunction n, runBody n⟩ scope f.body

end

-- Evaluation within a bound.
def evaluators (fuel : Nat) : Evaluators :=
  ⟨evalExpr fuel, execStmt fuel, callFunction fuel, runBody fuel⟩

theorem evaluators_zero :
    evaluators 0 =
      { expr := fun _ _ => Exec.outOfFuel
        stmt := fun _ _ => Exec.outOfFuel
        call := fun _ _ _ => Exec.outOfFuel
        body := fun _ _ => Exec.outOfFuel } := by
  rw [evaluators]
  congr 1 <;> (repeat refine funext fun _ => ?_)
  · rw [evalExpr]
  · rw [execStmt]
  · rw [callFunction]
  · rw [runBody]

-- Each evaluation makes one step and leaves the rest to the evaluations of what it contains.
theorem evaluators_succ (n : Nat) :
    evaluators (n + 1) =
      { expr := fun env e => Exec.atLine e.line (Eval.expr (evaluators n) env e)
        stmt := fun env s => Eval.stmt (evaluators n) n env s
        call := fun env f args => Eval.call (evaluators n) env f args
        body := fun scope f => Eval.block (evaluators n) scope f.body } := by
  rw [evaluators]
  congr 1 <;> (repeat refine funext fun _ => ?_)
  · rw [evalExpr, evaluators]
  · rw [execStmt, evaluators]
  · rw [callFunction, evaluators]
  · rw [runBody, evaluators]

end Parlance
