import Parlance.Proofs.Plain.Tidy

namespace Parlance

def Signal.Plain : Signal → Prop
  | .ret v => v.Plain
  | _ => True

-- Evaluations of plain syntax that are tidy.
structure Evaluators.Tidy (ev : Evaluators) : Prop where
  expr : ∀ env {e : Expr}, e.Marked .plain → Parlance.Tidy (ev.expr env e) Value.Plain
  stmt : ∀ env {s : Stmt}, s.Marked .plain → Parlance.Tidy (ev.stmt env s) Signal.Plain
  call : ∀ env {f : Function}, f.Plain → ∀ {args : List Value}, (∀ v ∈ args, v.Plain) →
    Parlance.Tidy (ev.call env f args) Value.Plain
  body : ∀ scope {f : Function}, f.Plain → Parlance.Tidy (ev.body scope f) Signal.Plain

namespace Eval

open Tidy

variable {args : List Value}

section Builtin

variable (hargs : ∀ v ∈ args, v.Plain)

include hargs

end Builtin

section Channel

variable {ev : Evaluators} (T : ev.Tidy)

include T

end Channel

variable {ev : Evaluators} (T : ev.Tidy)

include T

end Eval

end Parlance
