import Parlance.CommandLine

namespace Parlance

-- Why a file could not be read, with the number of the error.
def readFailure : IO.Error → String
  | .noFileOrDirectory _ _ _ => "No such file or directory (os error 2)"
  | .permissionDenied _ _ _ => "Permission denied (os error 13)"
  | .inappropriateType _ _ _ => "Is a directory (os error 21)"
  | e => toString e

def readFile (path : String) : IO (Except String String) := do
  try
    return .ok (← IO.FS.readFile path)
  catch e =>
    return .error (readFailure e)

-- Reads the program file, if there is one, and the input.
def gather (path : Option String) : IO CommandLine.Surroundings := do
  let file ← match path with
    | some path => readFile path
    | none => pure (.error "")
  let input ← (← IO.getStdin).readToEnd
  return ⟨fun _ => file, input⟩

end Parlance

open Parlance in
-- Runs a program from a file or from the arguments.
def main (args : List String) : IO UInt32 := do
  let surroundings ← match CommandLine.read args with
    | .ok a => gather a.path
    | .error _ => pure ⟨fun _ => .error "", ""⟩
  let seed ← IO.rand 0 18446744073709551615
  let host := { Host.loopback with draws := .ofSeed seed.toUInt64 }
  let outcome := CommandLine.outcome host surroundings args
  IO.print outcome.output
  (← IO.getStdout).flush
  IO.eprint outcome.errors
  return outcome.code.toUInt32
