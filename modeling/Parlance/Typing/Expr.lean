import Parlance.Fault
import Parlance.Program.Stmt

namespace Parlance.Typing

-- What is known of a function that can be called.
structure FunctionType where
  returns : Ty
  required : Nat

-- The functions defined so far, the last one first.
abbrev Functions :=
  List (String × FunctionType)

def require (ok : Bool) (cause : TypeFault) (line : Nat) : Except Fault Unit :=
  if ok then .ok () else .error (.typing cause line)

-- Expressions of one type stand where that type is wanted, and so do those that promise
-- nothing.
def mustBe (what : String) (expected : Ty) (e : Expr) (found : Ty) : Except Fault Unit :=
  require (e.isErased || found == expected) (.mustBe what expected found) e.line

-- The condition of a branch or a loop, or what a loop runs over.
def condition (construct : String) (accepted : List Ty) (e : Expr) (found : Ty) :
    Except Fault Unit :=
  require (e.isElement || accepted.contains found) (.condition construct accepted found) e.line

-- The first value of a variable.
def initialiser (name : Token) (declared : Ty) (e : Expr) (found : Ty) : Except Fault Unit :=
  require (e.isErased || found == declared) (.initialiser name.lexeme declared found) name.line

-- The types that an index into a collection may have. The collections inside a
-- collection are not known, so they take any of them.
def indexTypes? (target : Expr) (receiver : Ty) : Option (List Ty) :=
  if target.isElement then
    some [.number, .string]
  else
    match receiver with
    | .list | .string => some [.number]
    | .dict => some [.string]
    | _ => none

def accessType (target index : Expr) (receiver found : Ty) : Except Fault Ty := do
  match indexTypes? target receiver with
  | none => .error (.typing (.notIndexable target.token.lexeme receiver) target.line)
  | some accepted =>
    require (index.isErased || accepted.contains found) (.index receiver found) target.line
    return receiver

def logicalOperand (operator : Token) (operand : Expr) (found : Ty) : Except Fault Unit :=
  require (operand.isElement || found == .bool) (.logicalOperand operator.lexeme found)
    operator.line

def relationalType (operator : Token) (left right : Expr) (l r : Ty) : Except Fault Ty := do
  require (left.isElement || right.isElement || l == r) (.comparison l r operator.lexeme)
    operator.line
  return .bool

def unaryType (operator : Token) (operand : Expr) (found : Ty) : Except Fault Ty := do
  let (accepted, result) : List Ty × Ty :=
    if operator.kind = .minus then ([.number], .number) else ([.bool, .list, .dict], .bool)
  require (operand.isElement || accepted.contains found)
    (.unaryOperand found operator.lexeme) operator.line
  return result

-- Operands of arithmetic that are not looked at.
def isUnchecked : Expr → Bool
  | .access _ _ => true
  | .array _ _ => true
  | _ => false

def isRepeatable : Ty → Bool
  | .string | .list => true
  | _ => false

-- The types that an arithmetic operator takes.
def operandsAllowed (operator : TokenKind) (l r : Ty) : Bool :=
  match operator with
  | .plus => l == r
  | .star =>
    (l == .number && r == .number) || (isRepeatable l && r == .number) ||
      (l == .number && isRepeatable r)
  | _ => l == .number && r == .number

def arithmeticType (operator : Token) (left right : Expr) (l r : Ty) : Except Fault Ty := do
  if isUnchecked left then
    return r
  else if isUnchecked right then
    return l
  else
    require (operandsAllowed operator.kind l r) (.operands l r operator.lexeme) operator.line
    return if operator.kind = .star ∧ l = .number then r else l

-- Elements of a collection take any value.
def assignType (target value : Expr) (declared found : Ty) : Except Fault Ty := do
  let isAccess := match target with
    | .access _ _ => true
    | _ => false
  require (isAccess || value.isErased || declared == found)
    (.assignment found target.token.lexeme declared) value.line
  return declared

-- The channel that a built-in function works on.
def channelOf? : String → Option Ty
  | "send" | "close" => some .client
  | "listen" => some .server
  | _ => none

def channelArgument (name : Token) (expected : Ty) (args : List (Expr × Ty)) :
    Except Fault Unit :=
  match args with
  | [] => .error (.typing (.channelMissing name.lexeme expected) name.line)
  | (e, found) :: _ =>
    require (e.isErased || found == expected) (.channelArgument name.lexeme expected found)
      name.line

-- The type of a call with its arguments, the receiver among them. `callee` is the type of
-- the name that is called, if a name is.
def callType (fs : Functions) (name : Token) (callee : Option Ty) (args : List (Expr × Ty)) :
    Except Fault Ty := do
  match builtinType? name.lexeme with
  | some result =>
    match channelOf? name.lexeme with
    | some expected => channelArgument name expected args
    | none => pure ()
    return result
  | none =>
    match fs.lookup name.lexeme with
    | some f =>
      require (f.required ≤ args.length)
        (.tooFewArguments name.lexeme f.required args.length) name.line
      return f.returns
    | none =>
      let cause : TypeFault :=
        match callee with
        | some ty => if ty = .func then .unknownFunction name.lexeme
          else .notFunction name.lexeme ty
        | none => .unknownFunction name.lexeme
      .error (.typing cause name.line)

mutual

-- The type of an expression, or why it has none.
def exprType (fs : Functions) : Expr → Except Fault Ty
  | .constant token => .ok (Expr.constant token).ty
  | .name _ ty => .ok ty
  | .access target index => do
    let receiver ← exprType fs target
    let found ← exprType fs index
    accessType target index receiver found
  | .slice target start stop => do
    let receiver ← exprType fs target
    require (target.isElement || receiver == .list || receiver == .string)
      (.notSliceable target.token.lexeme receiver) target.line
    boundType fs start
    boundType fs stop
    return receiver
  | .logical operator left right => do
    logicalOperand operator left (← exprType fs left)
    logicalOperand operator right (← exprType fs right)
    return .bool
  | .relational operator left right => do
    let l ← exprType fs left
    let r ← exprType fs right
    relationalType operator left right l r
  | .arithmetic operator left right => do
    let l ← exprType fs left
    let r ← exprType fs right
    arithmeticType operator left right l r
  | .unary operator operand => do
    let found ← exprType fs operand
    unaryType operator operand found
  | .call callee ty args => do
    let typed ← exprTypes fs args
    callType fs callee (some ty) typed
  | .method receiver operation args => do
    let found ← exprType fs receiver
    let typed ← exprTypes fs args
    callType fs operation none ((receiver, found) :: typed)
  | .array _ items => do
    let _ ← exprTypes fs items
    return .list
  | .dict _ entries => do
    entryTypes fs entries
    return .dict
  | .assign _ target value => do
    let declared ← exprType fs target
    let found ← exprType fs value
    assignType target value declared found
  | .comprehension _ iterator ty init iterable projection => do
    initType fs iterator ty init
    condition "for" [.list, .dict] iterable (← exprType fs iterable)
    let _ ← exprType fs projection
    return .list

-- Expressions with their types, in order.
def exprTypes (fs : Functions) : List Expr → Except Fault (List (Expr × Ty))
  | [] => .ok []
  | e :: rest => do
    let ty ← exprType fs e
    let typed ← exprTypes fs rest
    return (e, ty) :: typed

def entryTypes (fs : Functions) : List (String × Expr) → Except Fault Unit
  | [] => .ok ()
  | (_, e) :: rest => do
    let _ ← exprType fs e
    entryTypes fs rest

-- A bound of a slice, if it is given.
def boundType (fs : Functions) : Option Expr → Except Fault Unit
  | none => .ok ()
  | some e => do mustBe "slice bound" .number e (← exprType fs e)

-- The first value of a variable, if it is given.
def initType (fs : Functions) (name : Token) (declared : Ty) : Option Expr → Except Fault Unit
  | none => .ok ()
  | some e => do initialiser name declared e (← exprType fs e)

end

end Parlance.Typing
