import Parlance.Fault.Message
import Parlance.Text.Line
import Parlance.Text.Space

namespace Parlance

-- The stage that a failure belongs to.
inductive Stage where
  | grammar
  | declaration
  | typing
  | runtime
  deriving DecidableEq

namespace Stage

def code : Stage → String
  | grammar => "E_SYNTAX"
  | declaration => "E_DECLARATION"
  | typing => "E_TYPE"
  | runtime => "E_RUNTIME"

def ofCode? : String → Option Stage
  | "E_SYNTAX" => some grammar
  | "E_DECLARATION" => some declaration
  | "E_TYPE" => some typing
  | "E_RUNTIME" => some runtime
  | _ => none

end Stage

def Cause.stage : Cause → Stage
  | grammar _ => .grammar
  | declaration _ => .declaration
  | typing _ => .typing
  | runtime _ => .runtime

-- A failure as it is shown.
structure Diagnostic where
  stage : Stage
  message : String
  line : Option Nat
  help : Option String
  deriving DecidableEq

def Fault.diagnostic (f : Fault) : Diagnostic :=
  ⟨f.cause.stage, f.cause.message, f.line, f.cause.help⟩

namespace Diagnostic

-- Places a diagnostic at a line unless it has one.
def orLine (d : Diagnostic) (line : Nat) : Diagnostic :=
  { d with line := some (d.line.getD line) }

def place (d : Diagnostic) : String :=
  match d.line with
  | some line => s!" line {line}"
  | none => ""

-- The diagnostic in one line.
def text (d : Diagnostic) : String :=
  "error[" ++ d.stage.code ++ "]" ++ d.place ++ ": " ++ d.message

-- A number in at least three columns.
def column (n : Nat) : String :=
  let digits := toString n
  String.ofList (List.replicate (3 - digits.length) ' ') ++ digits

-- The source line with carets under all of it but the blanks at its ends.
def excerpt (name : String) (line : Nat) (shown : String) : String :=
  let cs := shown.toList
  let width := max 1 (Text.trimEnd (Text.trimStart cs)).length
  let carets := String.ofList (Text.leadingSpace cs ++ List.replicate width '^')
  s!"  --> {name}:{line}\n   |\n{column line} | {shown}\n   | {carets}\n"

-- The diagnostic with the source line it is about.
def render (name source : String) (d : Diagnostic) : String :=
  let head := "error[" ++ d.stage.code ++ "]: " ++ d.message ++ "\n"
  let shown := match d.line with
    | some line => excerpt name line (((Text.lines source)[line - 1]?).getD "")
    | none => ""
  let help := match d.help with
    | some help => s!"\nhelp: {help}\n"
    | none => ""
  head ++ shown ++ help

end Diagnostic

end Parlance
