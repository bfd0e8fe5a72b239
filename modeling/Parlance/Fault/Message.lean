import Parlance.Fault

namespace Parlance

def GrammarFault.message : GrammarFault → String
  | unexpected wanted found => s!"expected {wanted}, found `{found}`"
  | notStatement found => s!"`{found}` does not start a valid statement"
  | tooDeep limit => s!"nesting deeper than {limit} levels"
  | notAssignable lexeme => s!"`{lexeme}` cannot be assigned to"
  | notCallable lexeme => s!"`{lexeme}` cannot be called"

def DeclarationFault.message : DeclarationFault → String
  | redeclared name => s!"`{name}` is already declared in this scope"
  | repeatedParameter name => s!"parameter `{name}` is declared twice"
  | undeclared name => s!"`{name}` is not declared"

def TypeFault.message : TypeFault → String
  | returnOutside => "`return` outside of a function"
  | returns expected found => s!"function returns {expected.name}, found {found.name}"
  | outsideLoop keyword => s!"`{keyword}` outside of a loop"
  | condition construct accepted found =>
    let names := " or ".intercalate (accepted.map Ty.name)
    s!"`{construct}` expects {names}, found {found.name}"
  | parStatement => "only function calls may appear in a `par` block"
  | mustBe what expected found => s!"{what} must be {expected.name}, found {found.name}"
  | handlerReturns name found =>
    s!"server handler `{name}` must return STRING, not {found.name}"
  | handlerUnknown name => s!"server handler `{name}` is not a user function"
  | initialiser name declared found =>
    s!"cannot initialise `{name}` of type {declared.name} with {found.name}"
  | nestedFunction name construct =>
    s!"function `{name}` cannot be defined inside `{construct}`"
  | parameterDefault name declared found =>
    s!"default for parameter `{name}` must be {declared.name}, found {found.name}"
  | notIndexable lexeme found => s!"`{lexeme}` of type {found.name} cannot be indexed"
  | index receiver found => s!"cannot index {receiver.name} with {found.name}"
  | notSliceable lexeme found => s!"`{lexeme}` of type {found.name} cannot be sliced"
  | logicalOperand operator found =>
    s!"`{operator}` expects BOOL operands, found {found.name}"
  | comparison left right operator =>
    s!"cannot compare {left.name} with {right.name} using `{operator}`"
  | unaryOperand found operator => s!"invalid operand {found.name} for unary `{operator}`"
  | assignment found lexeme declared =>
    s!"cannot assign {found.name} to `{lexeme}` of type {declared.name}"
  | operands left right operator =>
    s!"invalid operands {left.name} and {right.name} for `{operator}`"
  | channelArgument name expected found =>
    s!"`{name}` expects a {expected.name}, found {found.name}"
  | channelMissing name expected => s!"`{name}` needs a {expected.name} argument"
  | notFunction name found => s!"`{name}` of type {found.name} is not a function"
  | unknownFunction name => s!"unknown function `{name}`"
  | tooFewArguments name required given =>
    s!"`{name}` takes at least {required} argument(s), {given} given"

-- The article in front of the name of a type, as the messages about arguments have it.
def Ty.article : Ty → String
  | server => "an"
  | _ => "a"

def RuntimeFault.message : RuntimeFault → String
  | undefinedVariable name => s!"undefined variable `{name}`"
  | undefinedFunction name => s!"undefined function `{name}`"
  | invalidNumber lexeme => s!"invalid number literal `{lexeme}`"
  | notAssignable lexeme => s!"`{lexeme}` cannot be assigned to"
  | missingArgument parameter function => s!"missing argument `{parameter}` for `{function}`"
  | recursionLimit _ => "maximum recursion depth exceeded"
  | returnOutside => "`return` outside of a function"
  | outsideLoop keyword => s!"`{keyword}` outside of a loop"
  | workerCrashed => "`par` worker panicked"
  | runCrashed => "run thread panicked"
  | portRange port => s!"port {port} is out of range"
  | notIterable found => s!"cannot iterate over a {found.name}"
  | notInteger what found => s!"{what} must be an integer, found {found.name}"
  | notText what found => s!"{what} must be a STRING, found {found.name}"
  | notNumber what found => s!"{what} must be a NUMBER, found {found.name}"
  | indexRange what index length => s!"{what} {index} out of range for length {length}"
  | missingKey key => s!"key \"{key}\" not found"
  | notIndexable found => s!"a {found.name} cannot be indexed"
  | notSliceable found => s!"a {found.name} cannot be sliced"
  | notContainer found => s!"cannot assign into a {found.name}"
  | tooDeepToCompare limit =>
    s!"collections nested more than {limit} levels deep cannot be compared"
  | unorderedNumber => "cannot order NaN"
  | notOrdered left right => s!"cannot order {left.name} and {right.name}"
  | unknownRelational operator => s!"unknown relational operator {operator.name}"
  | unknownArithmetic operator => s!"unknown arithmetic operator {operator.name}"
  | overflow => "integer overflow"
  | divisionByZero => "division by zero"
  | moduloByZero => "modulo by zero"
  | operands left right operator =>
    s!"unsupported operands {left.name} and {right.name} for `{operator}`"
  | notNegatable found => s!"cannot negate a {found.name}"
  | arity name least most given =>
    let count := if least = most then s!"{least}" else s!"{least} to {most}"
    s!"`{name}` expects {count} argument(s), got {given}"
  | endOfInput => "`input` reached the end of input"
  | sleepDuration seconds => s!"invalid sleep duration {seconds}"
  | notConvertible found => s!"cannot convert a {found.name} to a number"
  | notNumeral text => s!"cannot convert \"{text}\" to a number"
  | needs name expected found =>
    s!"`{name}` needs {expected.article} {expected.name}, found {found.name}"
  | noLength found => s!"a {found.name} has no length"
  | intersectionOperands left right =>
    s!"`intersection` needs two LISTs, found {left.name} and {right.name}"
  | mixedSort => "`sort` needs a list of numbers or a list of strings"
  | notSearchable found => s!"`contains` cannot search a {found.name}"
  | emptySeparator => "`split` separator is empty"
  | negativeRoot => "`sqrt` of a negative number"
  | zeroStep => "`range` step must not be zero"
  | randomArity given => s!"`random` expects 0 or 2 arguments, got {given}"
  | emptyRandomRange low high => s!"`random` range is empty: {low} > {high}"
  | cannotConnect endpoint reason => s!"cannot connect to {endpoint}: {reason}"
  | cannotListen endpoint reason => s!"cannot listen on {endpoint}: {reason}"
  | closedByPeer endpoint => s!"channel {endpoint} closed by peer"

namespace Cause

def message : Cause → String
  | grammar cause => cause.message
  | declaration cause => cause.message
  | typing cause => cause.message
  | runtime cause => cause.message

-- Advice on how to avoid the failure.
def help : Cause → Option String
  | grammar (.tooDeep _) => some "move inner parts into variables or functions"
  | runtime (.recursionLimit limit) => some s!"calls may nest at most {limit} scopes deep"
  | _ => none

end Cause

end Parlance
