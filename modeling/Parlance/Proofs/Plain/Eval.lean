import Parlance.Proofs.Plain.Builtin

namespace Parlance.Eval

open Tidy

variable {args : List Value} {ev : Evaluators} (T : ev.Tidy)

include T

end Parlance.Eval

namespace Parlance

end Parlance
