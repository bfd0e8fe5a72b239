import Parlance.Fault
import Parlance.Scope

namespace Parlance.Grammar

-- What is left to read, and the names visible here. After the end of the text the end is
-- read again and again.
structure State where
  current : Token
  rest : List Token
  scope : Scope

abbrev Parse :=
  StateT State (Except Stop)

def fail {α : Type} (fault : Fault) : Parse α :=
  fun _ => .error (.fault fault)

def outOfFuel {α : Type} : Parse α :=
  fun _ => .error .outOfFuel

-- The token that comes next.
def peek : Parse Token :=
  fun s => .ok (s.current, s)

-- Whether the next token is of a class.
def check (kind : TokenKind) : Parse Bool :=
  fun s => .ok (decide (s.current.kind = kind), s)

-- Takes the next token.
def advance : Parse Token :=
  fun s =>
    match s.rest with
    | [] => .ok (s.current, { s with current := ⟨.eof, "EOF", s.current.line⟩ })
    | token :: rest => .ok (s.current, { s with current := token, rest := rest })

-- Takes the next token if it is of a class.
def accept (kind : TokenKind) : Parse Bool := do
  if ← check kind then
    let _ ← advance
    return true
  else
    return false

def unexpected {α : Type} (wanted : String) : Parse α := do
  let token ← peek
  fail (.grammar (.unexpected wanted token.lexeme) token.line)

-- Takes the next token, which has to be of a class.
def expect (kind : TokenKind) (wanted : String) : Parse Token := do
  if ← check kind then
    advance
  else
    unexpected wanted

def expectType : Parse Ty := do
  let token ← expect .typeName "a type"
  match Ty.ofKeyword? token.lexeme with
  | some ty => return ty
  | none => unexpected "a type"

-- The levels of nesting that a program may have.
def maxNesting : Nat := 128

-- Goes one level deeper, if there is one.
def nested {α : Type} (depth : Nat) (body : Nat → Parse α) : Parse α := do
  if maxNesting ≤ depth then
    let token ← peek
    fail (.grammar (.tooDeep maxNesting) token.line)
  else
    body (depth + 1)

def declare (name : Token) (ty : Ty) : Parse Unit :=
  fun s =>
    match s.scope.insert? name.lexeme ty with
    | some scope => .ok ((), { s with scope })
    | none => .error (.fault (.declaration (.redeclared name.lexeme) name.line))

-- The type that a name was declared with.
def resolve (name : Token) : Parse Ty :=
  fun s =>
    match s.scope.find? name.lexeme with
    | some ty => .ok (ty, s)
    | none => .error (.fault (.declaration (.undeclared name.lexeme) name.line))

-- Reads in a block of its own, in which some names are declared from the start.
def inBlock {α : Type} (seed : Layer) (body : Parse α) : Parse α := do
  modify fun s => { s with scope := s.scope.push.insertAll seed }
  let a ← body
  modify fun s => { s with scope := s.scope.pop }
  return a

-- Items with commas between them, as long as the next token can start one. A comma may
-- follow the last item. Each loop is given as one of its rounds, which leaves what comes
-- after it to `again`.
def itemsRound {α : Type} (starts : TokenKind → Bool) (item : Parse α)
    (again : Parse (List α)) : Parse (List α) := do
  let token ← peek
  if starts token.kind then
    let a ← item
    if ← accept .comma then
      return a :: (← again)
    else
      return [a]
  else
    return []

def items {α : Type} (starts : TokenKind → Bool) (item : Parse α) : Nat → Parse (List α)
  | 0 => outOfFuel
  | fuel + 1 => itemsRound starts item (items starts item fuel)

end Parlance.Grammar
