import Parlance.Run

namespace Parlance

-- How a computation ends: with a value or a reason to stop, and with a world either way.
abbrev Outcome (α : Type) :=
  EStateM.Result Stop World α

-- The world that a computation leaves behind.
def Outcome.world {α : Type} : Outcome α → World
  | .ok _ w => w
  | .error _ w => w

-- What has been written by then.
def Outcome.output {α : Type} (r : Outcome α) : String :=
  r.world.console.output

-- A computation has stopped for one of the failures that a test picks out.
def Outcome.fails {α : Type} (bad : RuntimeFault → Bool) : Outcome α → Bool
  | .error (.fault ⟨.runtime cause, _⟩) _ => bad cause
  | _ => false

-- A computation has come to its end, with a value or for a reason of its own.
def Outcome.isOver {α : Type} : Outcome α → Bool
  | .error .outOfFuel _ => false
  | _ => true

-- The failure that a computation ends with.
def Outcome.fault? {α : Type} : Outcome α → Option Fault
  | .error (.fault f) _ => some f
  | _ => none

theorem Outcome.eq_error_of_fault? {α : Type} {r : Outcome α} {f : Fault}
    (h : Outcome.fault? r = some f) : ∃ w, r = .error (.fault f) w := by
  cases r with
  | ok a w => cases h
  | error s w =>
    cases s with
    | fault g =>
      cases h
      exact ⟨w, rfl⟩
    | crash | outOfFuel => cases h

-- A call that is running: the frame of its parameters, and the function.
structure Activation where
  scope : Nat
  function : Function

-- Conditions on all evaluations that a run makes. Each sees the world that an evaluation
-- starts in and how it ends, and the call whose body the evaluation belongs to. Nothing
-- outside of functions belongs to a call, and neither do the defaults of parameters.
structure Contract where
  expr : Option Activation → Nat → Expr → World → Outcome Value → Bool
  stmt : Option Activation → Nat → Stmt → World → Outcome Signal → Bool
  body : Activation → World → Outcome Signal → Bool

namespace Contract

-- A computation that stops where it breaks a condition. No program catches that it stops, and
-- none ends in a world without frames itself.
def checked {α : Type} (condition : World → Outcome α → Bool) (x : Exec α) : Exec α :=
  fun w =>
    let r := x w
    if condition w r then r else .error .outOfFuel { w with frames := ⟨#[]⟩ }

-- Nothing that is evaluated fails as a test says.
def avoiding (bad : RuntimeFault → Bool) : Contract where
  expr _ _ _ _ r := !r.fails bad
  stmt _ _ _ _ r := !r.fails bad
  body _ _ r := !r.fails bad

-- Evaluation in which everything that is evaluated is checked.
def watched (C : Contract) : Nat → Option Activation → Evaluators
  | 0, _ => evaluators 0
  | n + 1, k =>
    { expr := fun env e =>
        checked (C.expr k env e) (Exec.atLine e.line (Eval.expr (C.watched n k) env e))
      stmt := fun env s => checked (C.stmt k env s) (Eval.stmt (C.watched n k) n env s)
      call := fun env f args => Eval.call (C.watched n none) env f args
      body := fun scope f =>
        checked (C.body ⟨scope, f⟩)
          (Eval.block (C.watched n (some ⟨scope, f⟩)) scope f.body) }

-- The run of a program keeps a contract with all that it evaluates before the fuel is used up:
-- the run ends as it does when it is watched.
def Kept (C : Contract) (fuel : Nat) (p : Program) (w : World) : Prop :=
  runWith (C.watched fuel none) p w = runStatements fuel p w

theorem watched_zero (C : Contract) : C.watched 0 = fun _ => evaluators 0 :=
  funext fun _ => rfl

theorem watched_succ (C : Contract) (n : Nat) :
    C.watched (n + 1) = fun k =>
      { expr := fun env e =>
          checked (C.expr k env e) (Exec.atLine e.line (Eval.expr (C.watched n k) env e))
        stmt := fun env s => checked (C.stmt k env s) (Eval.stmt (C.watched n k) n env s)
        call := fun env f args => Eval.call (C.watched n none) env f args
        body := fun scope f =>
          checked (C.body ⟨scope, f⟩)
            (Eval.block (C.watched n (some ⟨scope, f⟩)) scope f.body) } :=
  funext fun _ => rfl

theorem checked_of_condition {α : Type} {condition : World → Outcome α → Bool} {x y : Exec α}
    {w : World} (hsame : x w = y w) (h : condition w (y w) = true) :
    checked condition x w = y w := by
  simp only [checked, hsame, h, ite_true]

end Contract

end Parlance
