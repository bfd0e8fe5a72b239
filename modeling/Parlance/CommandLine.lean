import Parlance.Decimal.Reading
import Parlance.Host.Local
import Parlance.Run

namespace Parlance.CommandLine

-- What the arguments of a command ask for.
structure Arguments where
  path : Option String
  eval : Option String
  capture : Bool
  sequential : Bool
  bufferSize : Option Nat
  stackSize : Option Nat

-- The options that take a value.
inductive Setting where
  | eval
  | bufferSize
  | stackSize

-- Why arguments do not ask for a program to be run.
inductive Detour where
  | version
  | help
  | misuse
  deriving DecidableEq

-- Arguments that are read one by one: an option may wait for its value, and after `--`
-- there are no options.
structure Reading where
  arguments : Arguments
  pending : Option Setting
  pathsOnly : Bool

def Reading.start : Reading :=
  ⟨⟨none, none, false, false, none, none⟩, none, false⟩

-- Sizes are numbers of a machine word.
def size? (s : String) : Option Nat :=
  let digits := match s.toList with
    | '+' :: cs => cs
    | cs => cs
  let n := Decimal.ofDigits digits
  if !digits.isEmpty && digits.all Char.isDigit && n < 18446744073709551616 then some n else none

namespace Arguments

-- Every option and the path can be given once.
def once {α : Type} (old : Option α) (new : α) : Except Detour (Option α) :=
  match old with
  | none => .ok (some new)
  | some _ => .error .misuse

def flag (old : Bool) : Except Detour Bool :=
  if old then .error .misuse else .ok true

def readSize (s : String) : Except Detour Nat :=
  match size? s with
  | some n => .ok n
  | none => .error .misuse

def setPath (a : Arguments) (path : String) : Except Detour Arguments := do
  if path.isEmpty then .error .misuse
  return { a with path := ← once a.path path }

def set (a : Arguments) (value : String) : Setting → Except Detour Arguments
  | .eval => do return { a with eval := ← once a.eval value }
  | .bufferSize => do return { a with bufferSize := ← once a.bufferSize (← readSize value) }
  | .stackSize => do return { a with stackSize := ← once a.stackSize (← readSize value) }

end Arguments

-- The name of a long option, and the value that stands behind it in the same argument.
def splitValue (cs : List Char) : String × Option String :=
  let name := String.ofList (cs.takeWhile (· != '='))
  match cs.dropWhile (· != '=') with
  | _ :: value => (name, some (String.ofList value))
  | [] => (name, none)

-- A dash alone is not an option.
def isOption (arg : String) : Bool :=
  arg.startsWith "-" && arg != "-"

namespace Reading

def put (r : Reading) (setting : Setting) (value : Option String) : Except Detour Reading :=
  match value with
  | some value => do return { r with arguments := ← r.arguments.set value setting, pending := none }
  | none => .ok { r with pending := some setting }

def long (r : Reading) (cs : List Char) : Except Detour Reading := do
  let a := r.arguments
  match splitValue cs with
  | ("eval", value) => r.put .eval value
  | ("buffer-size", value) => r.put .bufferSize value
  | ("stack-size", value) => r.put .stackSize value
  | ("capture", none) =>
    return { r with arguments := { a with capture := ← Arguments.flag a.capture } }
  | ("sequential", none) =>
    return { r with arguments := { a with sequential := ← Arguments.flag a.sequential } }
  | ("version", none) => .error .version
  | ("help", none) => .error .help
  | _ => .error .misuse

def short (r : Reading) : List Char → Except Detour Reading
  | ['e'] => r.put .eval none
  | 'e' :: '=' :: value => r.put .eval (some (String.ofList value))
  | 'e' :: value => r.put .eval (some (String.ofList value))
  | 'V' :: _ => .error .version
  | 'h' :: _ => .error .help
  | _ => .error .misuse

-- Reads one argument.
def step (r : Reading) (arg : String) : Except Detour Reading := do
  let path : Except Detour Reading := do
    return { r with arguments := ← r.arguments.setPath arg }
  if r.pathsOnly then path
  else
    match r.pending with
    | some setting => if isOption arg then .error .misuse else r.put setting (some arg)
    | none =>
      match arg.toList with
      | ['-', '-'] => return { r with pathsOnly := true }
      | '-' :: '-' :: cs => r.long cs
      | ['-'] => path
      | '-' :: cs => r.short cs
      | _ => path

-- A program is given by a path or by a text, and no option is left without its value.
def finish (r : Reading) : Except Detour Arguments :=
  if r.pending.isSome || (r.arguments.path.isSome && r.arguments.eval.isSome) then
    .error .misuse
  else
    .ok r.arguments

end Reading

def read (args : List String) : Except Detour Arguments := do
  (← args.foldlM Reading.step Reading.start).finish

-- What a command leaves behind.
structure Outcome where
  code : Nat
  output : String
  errors : String

def versionText : String := "minipar 0.1.0\n"

def usage : String :=
  "Usage: minipar [OPTIONS] [PATH]\n\n" ++
  "  -e, --eval <SOURCE>        Run this source text instead of a file\n" ++
  "      --capture              Read all input first and print the output at the end\n" ++
  "      --sequential           Run parallel blocks one call after another\n" ++
  "      --buffer-size <BYTES>  Bytes read per channel request or response\n" ++
  "      --stack-size <BYTES>   Stack of a run and of every parallel worker\n" ++
  "  -h, --help                 Print help\n" ++
  "  -V, --version              Print version\n"

def Detour.outcome : Detour → Outcome
  | .version => ⟨0, versionText, ""⟩
  | .help => ⟨0, usage, ""⟩
  | .misuse => ⟨2, "", usage⟩

-- The files and the input that a command works on. A file that cannot be read has a reason.
structure Surroundings where
  file : String → Except String String
  input : String

-- The name and the text of a program.
def program (s : Surroundings) (a : Arguments) : Except String (String × String) :=
  match a.eval, a.path with
  | some source, _ => .ok ("<eval>", source)
  | none, some path =>
    match s.file path with
    | .ok source => .ok (path, source)
    | .error reason => .error s!"failed to read `{path}`: {reason}"
  | none, none => .error "expected a program file or --eval SOURCE"

def Arguments.console (a : Arguments) (input : String) : Console :=
  if a.capture then Console.captured input else Console.stream input

-- Runs the program that the arguments give.
def Arguments.run (host : Host) (s : Surroundings) (a : Arguments) : Outcome :=
  match program s a with
  | .error message => ⟨1, "", s!"minipar: {message}\n"⟩
  | .ok (name, source) =>
    let options := ⟨!a.sequential, host⟩
    match execute ampleFuel source (World.fresh (a.console s.input) options) with
    | .ok _ w => ⟨0, w.console.output, ""⟩
    | .error (.fault f) w => ⟨1, w.console.output, f.diagnostic.render name source⟩
    | .error _ w => ⟨1, w.console.output, ""⟩

-- The outcome of a command.
def outcome (host : Host) (s : Surroundings) (args : List String) : Outcome :=
  match read args with
  | .ok a => a.run host s
  | .error detour => detour.outcome

end Parlance.CommandLine
