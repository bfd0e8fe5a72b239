import Parlance.Diagnostic
import Parlance.Eval.Stmt
import Parlance.Grammar.Stmt
import Parlance.Typing.Stmt

namespace Parlance

-- Nothing outside a function or a loop can be left.
def Signal.escape? : Signal → Option RuntimeFault
  | .normal => none
  | .ret _ => some .returnOutside
  | .brk => some (.outsideLoop "break")
  | .cont => some (.outsideLoop "continue")

-- Runs the statements of a program among the globals.
def runWith (ev : Evaluators) : Program → Exec Unit
  | [] => pure ()
  | s :: rest => do
    match (← ev.stmt globals s).escape? with
    | none => runWith ev rest
    | some cause => Exec.fault cause

def runStatements (fuel : Nat) : Program → Exec Unit :=
  runWith (evaluators fuel)

-- A text that can be run: it is a program, and its types agree.
def compile (source : String) : Except Stop Program := do
  let program ← parse source
  match Typing.program program with
  | .ok _ => return program
  | .error f => .error (.fault f)

-- A crash ends a run like any other failure.
def guarded (body : Exec Unit) : Exec Unit := fun w =>
  match body w with
  | .error .crash w => .error (.fault (.runtime .runCrashed)) w
  | r => r

-- Checks and runs a text.
def execute (fuel : Nat) (source : String) : Exec Unit :=
  guarded do
    let program ← Exec.require (compile source)
    runStatements fuel program

-- More steps than any run will take.
def ampleFuel : Nat := 4611686018427387904

end Parlance
