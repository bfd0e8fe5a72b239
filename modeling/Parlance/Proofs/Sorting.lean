import Parlance.Sorting
import Parlance.Sorting.Pivot

namespace Parlance.Sorting

variable {α : Type} {P : α → Prop} {less : α → α → Bool}

-- Lists are sorted as a whole by a way to sort what has been put off.
variable {sort? : List α → Option (List α)}
  (hsort : ∀ {xs ys}, (∀ x ∈ xs, P x) → sort? xs = some ys → ∀ y ∈ ys, P y)

include hsort

omit hsort

end Parlance.Sorting
