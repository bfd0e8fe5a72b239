import Parlance.Eval.Stmt
import Parlance.Proofs.Heap.Equality
import Parlance.Proofs.Plain

namespace Parlance

namespace Value

end Value

namespace Heap

variable {h : Heap} {a b container i : Value}

end Heap

namespace Builtin

end Builtin

namespace Eval

end Eval

end Parlance
