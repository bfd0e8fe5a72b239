import Parlance.Typing.Expr

namespace Parlance.Typing

-- What a statement stands in.
inductive Place where
  | function (returns : Ty)
  | branch
  | loop
  | each
  | par
  deriving DecidableEq

-- The places around a statement from the inside out, up to the innermost function.
def enclosing : List Place → List Place
  | [] => []
  | .function returns :: _ => [.function returns]
  | place :: rest => place :: enclosing rest

-- The result type of the function around a statement.
def returnType? (places : List Place) : Option Ty :=
  (enclosing places).findSome? fun
    | .function returns => some returns
    | _ => none

-- A function may not be defined in a branch, a loop with a condition or a parallel block
-- of the function around it.
def barrier? (places : List Place) : Option String :=
  (enclosing places).findSome? fun
    | .branch => some "if"
    | .loop => some "while"
    | .par => some "par"
    | _ => none

def inLoop (places : List Place) : Bool :=
  (enclosing places).any fun
    | .loop | .each => true
    | _ => false

def loopControl (places : List Place) (keyword : String) (line : Nat) : Except Fault Unit :=
  require (inLoop places) (.outsideLoop keyword) line

def returnValue (fs : Functions) (places : List Place) (value : Option Expr) (line : Nat) :
    Except Fault Unit := do
  match returnType? places with
  | none => .error (.typing .returnOutside line)
  | some expected =>
    match value with
    | none => require (expected == .void) (.returns expected .void) line
    | some e =>
      let found ← exprType fs e
      require (e.isErased || found == expected) (.returns expected found) line

def declared (fs : Functions) (d : Declaration) : Except Fault Unit :=
  initType fs d.name d.ty d.init

def paramDefaults (fs : Functions) : List Param → Except Fault Unit
  | [] => .ok ()
  | p :: rest => do
    match p.default with
    | none => pure ()
    | some e =>
      let found ← exprType fs e
      require (e.isErased || found == p.ty) (.parameterDefault p.name p.ty found) e.line
    paramDefaults fs rest

-- An operand of a channel.
def operand (fs : Functions) (what : String) (expected : Ty) (e : Expr) : Except Fault Unit := do
  mustBe what expected e (← exprType fs e)

def handler (fs : Functions) (name : Token) : Except Fault Unit :=
  match fs.lookup name.lexeme with
  | some f => require (f.returns == .string) (.handlerReturns name.lexeme f.returns) name.line
  | none => .error (.typing (.handlerUnknown name.lexeme) name.line)

-- Whether a statement may stand in a parallel block.
def isWorker : Stmt → Bool
  | .expression e => e.isCall
  | _ => false

mutual

-- Checks a statement and gives the functions that are defined after it.
def stmt (places : List Place) (fs : Functions) : Stmt → Except Fault Functions
  | .expression e => do
    let _ ← exprType fs e
    return fs
  | .declaration d => do
    declared fs d
    return fs
  | .function name returns params body line => do
    match barrier? places with
    | some construct => .error (.typing (.nestedFunction name construct) line)
    | none =>
      paramDefaults fs params
      stmts (.function returns :: places)
        ((name, ⟨returns, requiredCount params⟩) :: fs) body
  | .ret value line => do
    returnValue fs places value line
    return fs
  | .brk line => do
    loopControl places "break" line
    return fs
  | .cont line => do
    loopControl places "continue" line
    return fs
  | .branch c yes no => do
    condition "if" [.bool, .list, .dict] c (← exprType fs c)
    let fs ← stmts (.branch :: places) fs yes
    optionalStmts (.branch :: places) fs no
  | .loop c body => do
    condition "while" [.bool] c (← exprType fs c)
    stmts (.loop :: places) fs body
  | .each iterator iterable body => do
    declared fs iterator
    condition "for" [.list, .dict] iterable (← exprType fs iterable)
    stmts (.each :: places) fs body
  | .par body line => do
    require (body.all isWorker) .parStatement line
    stmts (.par :: places) fs body
  | .seq body => stmts places fs body
  | .client _ host port _ => do
    operand fs "channel host" .string host
    operand fs "channel port" .number port
    return fs
  | .server _ name description host port _ => do
    handler fs name
    operand fs "channel description" .string description
    operand fs "channel host" .string host
    operand fs "channel port" .number port
    return fs

def stmts (places : List Place) (fs : Functions) : List Stmt → Except Fault Functions
  | [] => .ok fs
  | s :: rest => do
    let fs ← stmt places fs s
    stmts places fs rest

def optionalStmts (places : List Place) (fs : Functions) :
    Option (List Stmt) → Except Fault Functions
  | none => .ok fs
  | some body => stmts places fs body

end

-- Checks a program.
def program (p : Program) : Except Fault Unit := do
  let _ ← stmts [] [] p

end Parlance.Typing
