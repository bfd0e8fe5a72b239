import Parlance.World

namespace Parlance

-- How a statement ends when it does not fail.
inductive Signal where
  | normal
  | ret (value : Value)
  | brk
  | cont

-- The evaluation of what an expression, a statement or a function contains. All take the
-- frame that it runs in: a call the one of the caller, a body the one of the parameters.
structure Evaluators where
  expr : Nat → Expr → Exec Value
  stmt : Nat → Stmt → Exec Signal
  call : Nat → Function → List Value → Exec Value
  body : Nat → Function → Exec Signal

namespace Eval

open Exec

-- Runs statements one after another, until one of them does not end normally.
def block (ev : Evaluators) (env : Nat) : List Stmt → Exec Signal
  | [] => pure .normal
  | s :: rest => do
    match ← ev.stmt env s with
    | .normal => block ev env rest
    | signal => pure signal

-- The deepest frame that a call may run in.
def callDepth : Nat := 1024

-- Evaluates the defaults of all parameters, each in a frame with those before it.
def defaults (ev : Evaluators) (env : Nat) : List Param → Exec Unit
  | [] => pure ()
  | p :: rest => do
    match p.default with
    | some e => define env p.name (← ev.expr env e)
    | none => pure ()
    defaults ev env rest

-- Gives parameters their arguments, as far as both go.
def bindAll (env : Nat) : List Param → List Value → Exec Unit
  | p :: params, v :: values => do
    define env p.name v
    bindAll env params values
  | _, _ => pure ()

-- The first parameter that has neither an argument nor a default.
def missing? (params : List Param) (given : Nat) : Option Param :=
  (params.drop given).find? Param.isRequired

-- The value of a call, given how the body of the function ended.
def result : Signal → Value
  | .ret v => v
  | _ => .void

-- Runs a function in a frame under `env`, which is the frame of the caller.
def call (ev : Evaluators) (env : Nat) (f : Function) (args : List Value) : Exec Value :=
  withFrame env fun scope => do
    if callDepth < (← get).frames.depth scope then
      faultAt (.recursionLimit callDepth) f.line
    defaults ev scope f.params
    bindAll scope f.params args
    match missing? f.params args.length with
    | some p => fault (.missingArgument p.name f.name)
    | none => return result (← ev.body scope f)

end Eval

end Parlance
