import Parlance.Diagnostic
import Parlance.Proofs.Text.Unbroken

namespace Parlance

-- The texts that a message takes from elsewhere, between words of its own.
def GrammarFault.quoted : GrammarFault → List String
  | unexpected wanted found => [wanted, found]
  | notStatement found => [found]
  | tooDeep _ => []
  | notAssignable lexeme => [lexeme]
  | notCallable lexeme => [lexeme]

def DeclarationFault.quoted : DeclarationFault → List String
  | redeclared name => [name]
  | repeatedParameter name => [name]
  | undeclared name => [name]

def TypeFault.quoted : TypeFault → List String
  | outsideLoop keyword => [keyword]
  | condition construct _ _ => [construct]
  | mustBe what _ _ => [what]
  | handlerReturns name _ => [name]
  | handlerUnknown name => [name]
  | initialiser name _ _ => [name]
  | nestedFunction name construct => [name, construct]
  | parameterDefault name _ _ => [name]
  | notIndexable lexeme _ => [lexeme]
  | notSliceable lexeme _ => [lexeme]
  | logicalOperand operator _ => [operator]
  | comparison _ _ operator => [operator]
  | unaryOperand _ operator => [operator]
  | assignment _ lexeme _ => [lexeme]
  | operands _ _ operator => [operator]
  | channelArgument name _ _ => [name]
  | channelMissing name _ => [name]
  | notFunction name _ => [name]
  | unknownFunction name => [name]
  | tooFewArguments name _ _ => [name]
  | returnOutside | returns _ _ | parStatement | index _ _ => []

def RuntimeFault.quoted : RuntimeFault → List String
  | undefinedVariable name => [name]
  | undefinedFunction name => [name]
  | invalidNumber lexeme => [lexeme]
  | notAssignable lexeme => [lexeme]
  | missingArgument parameter function => [parameter, function]
  | outsideLoop keyword => [keyword]
  | notInteger what _ => [what]
  | notText what _ => [what]
  | notNumber what _ => [what]
  | indexRange what _ _ => [what]
  | missingKey key => [key]
  | operands _ _ operator => [operator]
  | arity name _ _ _ => [name]
  | sleepDuration seconds => [seconds]
  | notNumeral text => [text]
  | needs name _ _ => [name]
  | cannotConnect endpoint reason => [endpoint, reason]
  | cannotListen endpoint reason => [endpoint, reason]
  | closedByPeer endpoint => [endpoint]
  | _ => []

def Cause.quoted : Cause → List String
  | grammar cause => cause.quoted
  | declaration cause => cause.quoted
  | typing cause => cause.quoted
  | runtime cause => cause.quoted

@[simp]
theorem unbroken_toString (s : String) : Unbroken (toString s) ↔ Unbroken s :=
  .rfl

@[simp]
theorem Ty.unbroken_article (ty : Ty) : Unbroken ty.article := by
  cases ty <;> decide

end Parlance
