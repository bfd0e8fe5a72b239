import Parlance.Grammar.Level
import Parlance.Program.Stmt

namespace Parlance.Grammar

-- The readers of expressions that other readers are built from: `full` reads an
-- assignment or less, `plain` no assignment, and `sum` sums and what binds tighter.
structure Readers where
  full : Parse Expr
  plain : Parse Expr
  sum : Parse Expr

-- The declaration of a variable or an iterator, without entering its name anywhere.
def declaration (plain : Parse Expr) : Parse Declaration := do
  let _ ← accept .kwVar
  let name ← expect .id "a name"
  let _ ← expect .colon "`:`"
  let ty ← expectType
  let init ← if ← accept .equal then some <$> plain else pure none
  return ⟨name, ty, init⟩

-- A declaration whose name is visible from here on.
def registered (plain : Parse Expr) : Parse Declaration := do
  let decl ← declaration plain
  declare decl.name decl.ty
  return decl

-- The arguments of a call, after its opening parenthesis.
def arguments (r : Readers) (fuel : Nat) : Parse (List Expr) := do
  let args ← items (· != .rightParen) r.full fuel
  let _ ← expect .rightParen "`)`"
  return args

-- The index or the bounds of a slice, with the brackets.
def bracketed (r : Readers) (target : Expr) : Parse Expr := do
  let _ ← advance
  let start ← if ← check .colon then pure none else some <$> r.sum
  if ← accept .colon then
    let stop ← if ← check .rightBracket then pure none else some <$> r.sum
    let _ ← expect .rightBracket "`]`"
    return .slice target start stop
  else
    let _ ← expect .rightBracket "`]`"
    match start with
    | some index => return .access target index
    | none => unexpected "an index"

-- The indices, slices and calls after a name. Only a bare name can be called.
def suffixesRound (r : Readers) (fuel : Nat) (again : Expr → Parse Expr) (e : Expr) :
    Parse Expr := do
  let token ← peek
  match token.kind with
  | .leftBracket =>
    let e ← bracketed r e
    again e
  | .dot =>
    let _ ← advance
    let operation ← expect .id "an operation name"
    let _ ← expect .leftParen "`(`"
    let args ← arguments r fuel
    again (.method e operation args)
  | .leftParen =>
    match e with
    | .name callee ty =>
      let _ ← advance
      let args ← arguments r fuel
      again (.call callee ty args)
    | _ => fail (.grammar (.notCallable e.token.lexeme) token.line)
  | _ => return e

def suffixes (r : Readers) : Nat → Expr → Parse Expr
  | 0, _ => outOfFuel
  | fuel + 1, e => suffixesRound r fuel (suffixes r fuel) e

-- The key and the value of an entry of a dictionary.
def entry (r : Readers) : Parse (String × Expr) := do
  let key ← expect .string "a string key"
  let _ ← expect .colon "`:`"
  let value ← r.full
  return (key.lexeme, value)

-- A comprehension, after its opening bracket. The iterator is visible in what follows it.
def comprehension (r : Readers) (bracket : Token) : Parse Expr := do
  let _ ← advance
  let _ ← expect .leftParen "`(`"
  let e ← inBlock [] do
    let iterator ← registered r.plain
    let _ ← expect .kwIn "`in`"
    let iterable ← r.full
    let _ ← expect .rightParen "`)`"
    let _ ← expect .arrow "`->`"
    let projection ← r.full
    return .comprehension bracket iterator.name iterator.ty iterator.init iterable projection
  let _ ← expect .rightBracket "`]`"
  return e

-- What binds tightest: names with their suffixes, constants, and bracketed expressions.
def primary (r : Readers) (fuel : Nat) : Parse Expr := do
  let token ← peek
  match token.kind with
  | .id =>
    let name ← advance
    let ty ← resolve name
    suffixes r fuel (.name name ty)
  | .number | .string | .kwTrue | .kwFalse => .constant <$> advance
  | .leftParen =>
    let _ ← advance
    let e ← r.full
    let _ ← expect .rightParen "`)`"
    return e
  | .leftBracket =>
    let bracket ← advance
    if ← check .kwFor then
      comprehension r bracket
    else
      let values ← items (· != .rightBracket) r.full fuel
      let _ ← expect .rightBracket "`]`"
      return .array bracket values
  | .leftBrace =>
    let brace ← advance
    let entries ← items (· != .rightBrace) (entry r) fuel
    let _ ← expect .rightBrace "`\x7d`"
    return .dict brace entries
  | _ => unexpected "an expression"

-- An assignment, which associates to the right, or an expression without one.
def assignmentRound (target again : Parse Expr) : Parse Expr := do
  let target ← target
  if ← check .equal then
    let equal ← advance
    if target.isAssignable then
      let value ← again
      return .assign equal target value
    else
      fail (.grammar (.notAssignable target.token.lexeme) equal.line)
  else
    return target

-- An operand of the tightest binary operators.
def unaryRound (r : Readers) (fuel : Nat) (again : Parse Expr) : Parse Expr := do
  let token ← peek
  if token.kind = .bang ∨ token.kind = .minus then
    let operator ← advance
    let operand ← again
    return .unary operator operand
  else
    primary r fuel

mutual

def assignment : Nat → Nat → Parse Expr
  | 0, _ => outOfFuel
  | fuel + 1, depth =>
    assignmentRound (Level.parse (unary fuel depth) fuel Level.all)
      (nested depth (assignment fuel))

-- Every operand is one level deeper than the expression it stands in.
def unary : Nat → Nat → Parse Expr
  | 0, _ => outOfFuel
  | fuel + 1, depth =>
    nested depth fun depth =>
      unaryRound
        ⟨assignment fuel depth, Level.parse (unary fuel depth) fuel Level.all,
          Level.parse (unary fuel depth) fuel Level.sums⟩ fuel (unary fuel depth)

end

-- The readers of expressions at a depth.
def readers (fuel depth : Nat) : Readers :=
  ⟨assignment fuel depth, Level.parse (unary fuel depth) fuel Level.all,
    Level.parse (unary fuel depth) fuel Level.sums⟩

end Parlance.Grammar
