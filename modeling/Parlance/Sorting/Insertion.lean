namespace Parlance.Sorting

variable {α : Type}

-- Puts a value among others that stand in reverse order: in front of the first one that it
-- is not less than.
def insertBack (less : α → α → Bool) (x : α) : List α → List α
  | [] => [x]
  | y :: ys => if less x y then y :: insertBack less x ys else x :: y :: ys

-- Moves values from the left, one by one, to their places behind a sorted list.
def insertAll (less : α → α → Bool) (sorted xs : List α) : List α :=
  (xs.foldl (fun back x => insertBack less x back) sorted.reverse).reverse

def byInsertion (less : α → α → Bool) (xs : List α) : List α :=
  insertAll less [] xs

end Parlance.Sorting
