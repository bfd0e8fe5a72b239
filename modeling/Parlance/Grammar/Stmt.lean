import Parlance.Grammar.Expr
import Parlance.Token.Lexer

namespace Parlance.Grammar

def startsStatement : TokenKind → Bool
  | .id | .kwVar | .kwFunc | .kwIf | .kwWhile | .kwFor | .kwReturn | .kwBreak | .kwContinue
  | .kwSeq | .kwPar | .kwClient | .kwServer | .semicolon => true
  | _ => false

-- Readers of blocks, with the names that are declared in them from the start.
abbrev BlockReader :=
  Layer → Parse (List Stmt)

def parenthesized (r : Readers) : Parse Expr := do
  let _ ← expect .leftParen "`(`"
  let e ← r.full
  let _ ← expect .rightParen "`)`"
  return e

def branch (r : Readers) (block : BlockReader) : Parse Stmt := do
  let _ ← advance
  let condition ← parenthesized r
  let yes ← block []
  let no ← if ← accept .kwElse then some <$> block [] else pure none
  return .branch condition yes no

def loop (r : Readers) (block : BlockReader) : Parse Stmt := do
  let _ ← advance
  let condition ← parenthesized r
  let body ← block []
  return .loop condition body

-- The iterator of a loop is visible in its body only.
def each (r : Readers) (block : BlockReader) : Parse Stmt := do
  let _ ← advance
  let _ ← expect .leftParen "`(`"
  let iterator ← declaration r.plain
  let _ ← expect .kwIn "`in`"
  let iterable ← r.full
  let _ ← expect .rightParen "`)`"
  let body ← block [(iterator.name.lexeme, iterator.ty)]
  return .each iterator iterable body

-- Parameters, each with a name that none before it has.
def paramsRound (r : Readers) (names : List String) (again : List String → Parse (List Param)) :
    Parse (List Param) := do
  if ← check .id then
    let name ← advance
    let _ ← expect .colon "`:`"
    let ty ← expectType
    let default ← if ← accept .equal then some <$> r.full else pure none
    if names.contains name.lexeme then
      fail (.declaration (.repeatedParameter name.lexeme) name.line)
    else
      let param : Param := ⟨name.lexeme, ty, default⟩
      if ← accept .comma then
        return param :: (← again (name.lexeme :: names))
      else
        return [param]
  else
    return []

def params (r : Readers) (names : List String) : Nat → Parse (List Param)
  | 0 => outOfFuel
  | fuel + 1 => paramsRound r names fun names => params r names fuel

-- The name of a function is visible in its own defaults and body, the parameters in the
-- body only.
def function (r : Readers) (block : BlockReader) (fuel : Nat) : Parse Stmt := do
  let keyword ← advance
  let name ← expect .id "a function name"
  declare name .func
  let _ ← expect .leftParen "`(`"
  let ps ← params r [] fuel
  let _ ← expect .rightParen "`)`"
  let _ ← expect .arrow "`->`"
  let returns ← expectType
  let body ← block (ps.map fun p => (p.name, p.ty))
  return .function name.lexeme returns ps body keyword.line

-- A return without a value stands in front of a closing brace, a semicolon or the end.
def ret (r : Readers) : Parse Stmt := do
  let keyword ← advance
  let next ← peek
  let value ←
    match next.kind with
    | .rightBrace | .semicolon | .eof => pure none
    | _ => some <$> r.plain
  return .ret value keyword.line

def client (r : Readers) : Parse Stmt := do
  let keyword ← advance
  let name ← expect .id "a channel name"
  declare name .client
  let _ ← expect .leftBrace "`\x7b`"
  let host ← r.sum
  let _ ← expect .comma "`,`"
  let port ← r.sum
  let _ ← expect .rightBrace "`\x7d`"
  return .client name.lexeme host port keyword.line

def server (r : Readers) : Parse Stmt := do
  let keyword ← advance
  let name ← expect .id "a channel name"
  declare name .server
  let _ ← expect .leftBrace "`\x7b`"
  let handler ← expect .id "a function name"
  let _ ← resolve handler
  let _ ← expect .comma "`,`"
  let description ← r.sum
  let _ ← expect .comma "`,`"
  let host ← r.sum
  let _ ← expect .comma "`,`"
  let port ← r.sum
  let _ ← expect .rightBrace "`\x7d`"
  return .server name.lexeme handler description host port keyword.line

def statement (r : Readers) (block : BlockReader) (fuel : Nat) : Parse Stmt := do
  let token ← peek
  match token.kind with
  | .kwVar => .declaration <$> registered r.plain
  | .kwIf => branch r block
  | .kwWhile => loop r block
  | .kwFor => each r block
  | .kwBreak =>
    let keyword ← advance
    return .brk keyword.line
  | .kwContinue =>
    let keyword ← advance
    return .cont keyword.line
  | .kwFunc => function r block fuel
  | .kwReturn => ret r
  | .kwSeq =>
    let _ ← advance
    .seq <$> block []
  | .kwPar =>
    let keyword ← advance
    let body ← block []
    return .par body keyword.line
  | .kwClient => client r
  | .kwServer => server r
  | _ => .expression <$> r.full

-- Statements up to a closing brace or the end of the text. `one` reads a statement.
def sequenceRound (one : Parse Stmt) (again : Parse (List Stmt)) : Parse (List Stmt) := do
  let token ← peek
  if startsStatement token.kind then
    if ← accept .semicolon then
      again
    else
      let stmt ← one
      let _ ← accept .semicolon
      return stmt :: (← again)
  else if token.kind = .rightBrace ∨ token.kind = .eof then
    return []
  else
    fail (.grammar (.notStatement token.lexeme) token.line)

def sequence (one : Parse Stmt) : Nat → Parse (List Stmt)
  | 0 => outOfFuel
  | fuel + 1 => sequenceRound one (sequence one fuel)

-- A block is one level deeper than the statement it belongs to.
def block (statements : Nat → Parse (List Stmt)) (depth : Nat) : BlockReader :=
  fun seed => do
    let _ ← expect .leftBrace "`\x7b`"
    let body ← inBlock seed (nested depth statements)
    let _ ← expect .rightBrace "`\x7d`"
    return body

def statements : Nat → Nat → Parse (List Stmt)
  | 0, _ => outOfFuel
  | fuel + 1, depth =>
    sequence (statement (readers fuel depth) (block (statements fuel) depth) fuel) fuel

def program (fuel : Nat) : Parse Program := do
  let body ← statements fuel 0
  if ← check .eof then
    return body
  else
    unexpected "end of input"

-- The state before the first token.
def State.start : List Token → State
  | [] => ⟨⟨.eof, "EOF", 1⟩, [], Scope.root⟩
  | token :: rest => ⟨token, rest, Scope.root⟩

-- Every reader takes a token or goes down a bounded chain of readers before it comes back
-- to itself, so fuel in proportion to the number of tokens is enough.
def fuelFor (tokens : List Token) : Nat :=
  8 * (tokens.length + 2)

end Parlance.Grammar

namespace Parlance

-- Reads a program.
def parse (source : String) : Except Stop Program := do
  let tokens := lex source
  let (program, _) ← Grammar.program (Grammar.fuelFor tokens) (.start tokens)
  return program

end Parlance
