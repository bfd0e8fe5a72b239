import Parlance.Eval.Builtin
import Parlance.Heap.Index

namespace Parlance.Eval

open Exec

-- The value of a literal. Numbers are integers if they can be, doubles otherwise.
def constant (token : Token) : Except Stop Value :=
  match token.kind with
  | .number =>
    match Builtin.numeral? token.lexeme with
    | some v => .ok v
    | none => refuse (.invalidNumber token.lexeme)
  | .string => .ok (.str token.lexeme)
  | _ => .ok (.bool (token.lexeme == "true"))

def name (env : Nat) (token : Token) : Exec Value := do
  match (← get).frames.get? env token.lexeme with
  | some v => return v
  | none => fault (.undefinedVariable token.lexeme)

def access (ev : Evaluators) (env : Nat) (target index : Expr) : Exec Value := do
  let container ← ev.expr env target
  let i ← ev.expr env index
  reading fun h => h.index container i

-- A bound of a slice, if there is one.
def sliceBound (ev : Evaluators) (env : Nat) (what : String) : Option Expr → Exec (Option Int64)
  | none => pure none
  | some e => do
    let v ← ev.expr env e
    return some (← require (v.asInt what))

def slice (ev : Evaluators) (env : Nat) (target : Expr) (start stop : Option Expr) :
    Exec Value := do
  let container ← ev.expr env target
  let start ← sliceBound ev env "slice start" start
  let stop ← sliceBound ev env "slice end" stop
  place (← reading fun h => h.slice container start stop)

-- The value of a conjunction is one of its operands, the value of a disjunction a truth
-- value. Only a conjunction leaves its right operand out. A disjunction looks at both values
-- when it has them, so that its right operand can still fill a collection on the left.
def logical (ev : Evaluators) (env : Nat) (op : TokenKind) (left right : Expr) :
    Exec Value := do
  let l ← ev.expr env left
  if op = .and then
    if ← isTrue l then ev.expr env right else return l
  else
    let r ← ev.expr env right
    return .bool ((← isTrue l) || (← isTrue r))

def relational (ev : Evaluators) (env : Nat) (op : TokenKind) (left right : Expr) :
    Exec Value := do
  let l ← ev.expr env left
  let r ← ev.expr env right
  reading fun h => h.relational op l r

def arithmetic (ev : Evaluators) (env : Nat) (op : TokenKind) (left right : Expr) :
    Exec Value := do
  let l ← ev.expr env left
  let r ← ev.expr env right
  place (← reading fun h => h.arithmetic op l r)

def unary (ev : Evaluators) (env : Nat) (op : TokenKind) (operand : Expr) :
    Exec Value := do
  let v ← ev.expr env operand
  if op = .bang then return .bool (!(← isTrue v)) else require v.negate

-- Calls the function of a name. The built-in functions come first.
def invoke (ev : Evaluators) (env : Nat) (name : String) (args : List Value) : Exec Value := do
  match Builtin.ofName? name with
  | some b => builtin ev env args b
  | none =>
    match (← get).functions.get? name with
    | some f => ev.call env f args
    | none => fault (.undefinedFunction name)

def plainCall (ev : Evaluators) (env : Nat) (name : String) (args : List Expr) :
    Exec Value := do
  let values ← args.mapM (ev.expr env)
  invoke ev env name values

-- A call on a receiver has it as its first argument.
def methodCall (ev : Evaluators) (env : Nat) (receiver : Expr) (name : String)
    (args : List Expr) : Exec Value := do
  let v ← ev.expr env receiver
  let values ← args.mapM (ev.expr env)
  invoke ev env name (v :: values)

def array (ev : Evaluators) (env : Nat) (items : List Expr) : Exec Value := do
  let values ← items.mapM (ev.expr env)
  place (.list values.toArray)

-- Evaluates the entries of a dictionary. A later entry replaces an earlier one.
def entries (ev : Evaluators) (env : Nat) (table : Table Value) :
    List (String × Expr) → Exec (Table Value)
  | [] => pure table
  | (key, e) :: rest => do
    let v ← ev.expr env e
    entries ev env (table.insert key v) rest

def dict (ev : Evaluators) (env : Nat) (es : List (String × Expr)) : Exec Value := do
  place (.dict (← entries ev env Table.empty es))

-- Stores a value in the place that an assignment names.
def assign (ev : Evaluators) (env : Nat) (v : Value) (target : Expr) : Exec Unit := do
  match target with
  | .name token _ =>
    match (← get).frames.owner? token.lexeme env with
    | some owner => define owner token.lexeme v
    | none => faultAt (.undefinedVariable token.lexeme) token.line
  | .access container index =>
    let c ← ev.expr env container
    let i ← ev.expr env index
    let slot ← atLine target.line (reading fun h => h.slot c i)
    modify fun w => { w with heap := w.heap.put v slot }
  | _ => faultAt (.notAssignable target.token.lexeme) target.line

-- The value of an assignment is the value that it stores.
def assignment (ev : Evaluators) (env : Nat) (target value : Expr) : Exec Value := do
  let v ← ev.expr env value
  assign ev env v target
  return v

-- Evaluates an expression once for every item, each time in a new frame.
def comprehension (ev : Evaluators) (env : Nat) (iterator : String)
    (iterable projection : Expr) : Exec Value := do
  let source ← ev.expr env iterable
  let items ← reading fun h => h.iterate source
  let values ← items.mapM fun item =>
    withFrame env fun scope => do
      define scope iterator item
      ev.expr scope projection
  place (.list values.toArray)

-- The value of an expression, given how to evaluate what it contains.
def expr (ev : Evaluators) (env : Nat) (e : Expr) : Exec Value :=
  match e with
  | .constant token => require (constant token)
  | .name token _ => name env token
  | .access target index => access ev env target index
  | .slice target start stop => slice ev env target start stop
  | .logical op left right => logical ev env op.kind left right
  | .relational op left right => relational ev env op.kind left right
  | .arithmetic op left right => arithmetic ev env op.kind left right
  | .unary op operand => unary ev env op.kind operand
  | .call callee _ args => plainCall ev env callee.lexeme args
  | .method receiver name args => methodCall ev env receiver name.lexeme args
  | .array _ items => array ev env items
  | .dict _ es => dict ev env es
  | .assign _ target value => assignment ev env target value
  | .comprehension _ iterator _ _ iterable projection =>
    comprehension ev env iterator.lexeme iterable projection

end Parlance.Eval
