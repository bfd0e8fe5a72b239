import Parlance.Ty

namespace Parlance

-- The lexical classes. A keyword of a type is `typeName`, every other keyword has a
-- class of its own, `other` is a character that starts nothing else, and `eof` closes
-- every token sequence.
inductive TokenKind where
  | id
  | number
  | string
  | typeName
  | kwTrue
  | kwFalse
  | kwFunc
  | kwWhile
  | kwFor
  | kwIn
  | kwIf
  | kwElse
  | kwReturn
  | kwBreak
  | kwContinue
  | kwPar
  | kwSeq
  | kwClient
  | kwServer
  | kwVar
  | arrow
  | or
  | and
  | equalEqual
  | notEqual
  | lessEqual
  | greaterEqual
  | leftParen
  | rightParen
  | leftBrace
  | rightBrace
  | leftBracket
  | rightBracket
  | comma
  | colon
  | semicolon
  | dot
  | equal
  | plus
  | minus
  | star
  | slash
  | percent
  | bang
  | less
  | greater
  | other
  | eof
  deriving DecidableEq

namespace TokenKind

-- The name under which a class appears in messages and listings.
def name : TokenKind → String
  | id => "Id"
  | number => "Number"
  | string => "String"
  | typeName => "Type"
  | kwTrue => "True"
  | kwFalse => "False"
  | kwFunc => "Func"
  | kwWhile => "While"
  | kwFor => "For"
  | kwIn => "In"
  | kwIf => "If"
  | kwElse => "Else"
  | kwReturn => "Return"
  | kwBreak => "Break"
  | kwContinue => "Continue"
  | kwPar => "Par"
  | kwSeq => "Seq"
  | kwClient => "CChannel"
  | kwServer => "SChannel"
  | kwVar => "Var"
  | arrow => "Arrow"
  | or => "Or"
  | and => "And"
  | equalEqual => "EqualEqual"
  | notEqual => "NotEqual"
  | lessEqual => "LessEqual"
  | greaterEqual => "GreaterEqual"
  | leftParen => "LeftParen"
  | rightParen => "RightParen"
  | leftBrace => "LeftBrace"
  | rightBrace => "RightBrace"
  | leftBracket => "LeftBracket"
  | rightBracket => "RightBracket"
  | comma => "Comma"
  | colon => "Colon"
  | semicolon => "Semicolon"
  | dot => "Dot"
  | equal => "Equal"
  | plus => "Plus"
  | minus => "Minus"
  | star => "Star"
  | slash => "Slash"
  | percent => "Percent"
  | bang => "Bang"
  | less => "Less"
  | greater => "Greater"
  | other => "Other"
  | eof => "Eof"

-- The class of a word: a keyword, or an identifier.
def ofWord (word : String) : TokenKind :=
  match word with
  | "true" => kwTrue
  | "false" => kwFalse
  | "func" => kwFunc
  | "while" => kwWhile
  | "for" => kwFor
  | "in" => kwIn
  | "if" => kwIf
  | "else" => kwElse
  | "return" => kwReturn
  | "break" => kwBreak
  | "continue" => kwContinue
  | "par" => kwPar
  | "seq" => kwSeq
  | "c_channel" => kwClient
  | "s_channel" => kwServer
  | "var" => kwVar
  | _ => if (Ty.ofKeyword? word).isSome then typeName else id

-- The class of a character that stands for itself.
def ofSymbol : Char → TokenKind
  | '(' => leftParen
  | ')' => rightParen
  | '\x7b' => leftBrace
  | '\x7d' => rightBrace
  | '[' => leftBracket
  | ']' => rightBracket
  | ',' => comma
  | ':' => colon
  | ';' => semicolon
  | '.' => dot
  | '=' => equal
  | '+' => plus
  | '-' => minus
  | '*' => star
  | '/' => slash
  | '%' => percent
  | '!' => bang
  | '<' => less
  | '>' => greater
  | _ => other

-- The class of two characters that belong together.
def ofPair? : Char → Char → Option TokenKind
  | '-', '>' => some arrow
  | '|', '|' => some or
  | '&', '&' => some and
  | '=', '=' => some equalEqual
  | '!', '=' => some notEqual
  | '<', '=' => some lessEqual
  | '>', '=' => some greaterEqual
  | _, _ => none

-- The class of an operator's spelling.
def ofOperator? (spelling : String) : Option TokenKind :=
  match spelling.toList with
  | [c] => some (ofSymbol c)
  | [c, d] => ofPair? c d
  | _ => none

end TokenKind

-- A token. The lexeme of a string is the text between its quotes; the line is the one
-- of the token's last character.
structure Token where
  kind : TokenKind
  lexeme : String
  line : Nat
  deriving DecidableEq

end Parlance
