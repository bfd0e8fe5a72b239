import Parlance.Token

namespace Parlance

-- Why a text is not a program.
inductive GrammarFault where
  | unexpected (wanted found : String)
  | notStatement (found : String)
  | tooDeep (limit : Nat)
  | notAssignable (lexeme : String)
  | notCallable (lexeme : String)
  deriving DecidableEq

-- Why a name cannot be declared or used.
inductive DeclarationFault where
  | redeclared (name : String)
  | repeatedParameter (name : String)
  | undeclared (name : String)
  deriving DecidableEq

-- Why a program is refused before it runs.
inductive TypeFault where
  | returnOutside
  | returns (expected found : Ty)
  | outsideLoop (keyword : String)
  | condition (construct : String) (accepted : List Ty) (found : Ty)
  | parStatement
  | mustBe (what : String) (expected found : Ty)
  | handlerReturns (name : String) (found : Ty)
  | handlerUnknown (name : String)
  | initialiser (name : String) (declared found : Ty)
  | nestedFunction (name construct : String)
  | parameterDefault (name : String) (declared found : Ty)
  | notIndexable (lexeme : String) (found : Ty)
  | index (receiver found : Ty)
  | notSliceable (lexeme : String) (found : Ty)
  | logicalOperand (operator : String) (found : Ty)
  | comparison (left right : Ty) (operator : String)
  | unaryOperand (found : Ty) (operator : String)
  | assignment (found : Ty) (lexeme : String) (declared : Ty)
  | operands (left right : Ty) (operator : String)
  | channelArgument (name : String) (expected found : Ty)
  | channelMissing (name : String) (expected : Ty)
  | notFunction (name : String) (found : Ty)
  | unknownFunction (name : String)
  | tooFewArguments (name : String) (required given : Nat)
  deriving DecidableEq

-- Why a running program fails.
inductive RuntimeFault where
  | undefinedVariable (name : String)
  | undefinedFunction (name : String)
  | invalidNumber (lexeme : String)
  | notAssignable (lexeme : String)
  | missingArgument (parameter function : String)
  | recursionLimit (limit : Nat)
  | returnOutside
  | outsideLoop (keyword : String)
  | workerCrashed
  | runCrashed
  | portRange (port : Int)
  | notIterable (found : Ty)
  | notInteger (what : String) (found : Ty)
  | notText (what : String) (found : Ty)
  | notNumber (what : String) (found : Ty)
  | indexRange (what : String) (index : Int) (length : Nat)
  | missingKey (key : String)
  | notIndexable (found : Ty)
  | notSliceable (found : Ty)
  | notContainer (found : Ty)
  | tooDeepToCompare (limit : Nat)
  | unorderedNumber
  | notOrdered (left right : Ty)
  | unknownRelational (operator : TokenKind)
  | unknownArithmetic (operator : TokenKind)
  | overflow
  | divisionByZero
  | moduloByZero
  | operands (left right : Ty) (operator : String)
  | notNegatable (found : Ty)
  | arity (name : String) (least most given : Nat)
  | endOfInput
  | sleepDuration (seconds : String)
  | notConvertible (found : Ty)
  | notNumeral (text : String)
  | needs (name : String) (expected found : Ty)
  | noLength (found : Ty)
  | intersectionOperands (left right : Ty)
  | mixedSort
  | notSearchable (found : Ty)
  | emptySeparator
  | negativeRoot
  | zeroStep
  | randomArity (given : Nat)
  | emptyRandomRange (low high : Int)
  | cannotConnect (endpoint reason : String)
  | cannotListen (endpoint reason : String)
  | closedByPeer (endpoint : String)
  deriving DecidableEq

inductive Cause where
  | grammar (cause : GrammarFault)
  | declaration (cause : DeclarationFault)
  | typing (cause : TypeFault)
  | runtime (cause : RuntimeFault)
  deriving DecidableEq

-- A failure with the line it is reported at, when there is one.
structure Fault where
  cause : Cause
  line : Option Nat
  deriving DecidableEq

namespace Fault

def grammar (cause : GrammarFault) (line : Nat) : Fault :=
  ⟨.grammar cause, some line⟩

def declaration (cause : DeclarationFault) (line : Nat) : Fault :=
  ⟨.declaration cause, some line⟩

def typing (cause : TypeFault) (line : Nat) : Fault :=
  ⟨.typing cause, some line⟩

-- A failure of a running program that no line has been found for yet.
def runtime (cause : RuntimeFault) : Fault :=
  ⟨.runtime cause, none⟩

def runtimeAt (cause : RuntimeFault) (line : Nat) : Fault :=
  ⟨.runtime cause, some line⟩

-- Places a failure at a line unless it has one.
def orLine (f : Fault) (line : Nat) : Fault :=
  ⟨f.cause, some (f.line.getD line)⟩

@[simp]
theorem orLine_cause (f : Fault) (line : Nat) : (f.orLine line).cause = f.cause := rfl

end Fault

-- Why a computation ends without a value. A crash is an allocation beyond the address
-- space; running out of fuel says nothing about the program.
inductive Stop where
  | fault (fault : Fault)
  | crash
  | outOfFuel
  deriving DecidableEq

end Parlance
