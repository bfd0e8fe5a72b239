namespace Parlance.Sorting

variable {α : Type}

-- A stable sort for an order: values that are not less than each other stay as they stand.
def sort (less : α → α → Bool) (xs : List α) : List α :=
  xs.mergeSort fun a b => !less b a

-- Sorting loses nothing and adds nothing.
theorem sort_perm (less : α → α → Bool) (xs : List α) : (sort less xs).Perm xs :=
  List.mergeSort_perm _ _

end Parlance.Sorting
