import Parlance.Sorting.Runs

namespace Parlance.Sorting

variable {α : Type}

-- The position of the value in the middle of three.
def middle (less : α → α → Bool) (xs : Array α) (a b c : Nat) : Nat :=
  let before (i j : Nat) : Bool := match xs[i]?, xs[j]? with
    | some x, some y => less x y
    | _, _ => false
  let ab := before a b
  if ab = before a c then
    if before b c = ab then b else c
  else
    a

-- The position of a value near the middle of three stretches of `n` values.
def middleOf (less : α → α → Bool) (xs : Array α) (n a b c : Nat) : Nat :=
  if 8 ≤ n then
    let m := n / 8
    middle less xs (middleOf less xs m a (a + 4 * m) (a + 7 * m))
      (middleOf less xs m b (b + 4 * m) (b + 7 * m))
      (middleOf less xs m c (c + 4 * m) (c + 7 * m))
  else
    middle less xs a b c
termination_by n

def pivotPosition (less : α → α → Bool) (xs : Array α) : Nat :=
  let m := xs.size / 8
  middleOf less xs m 0 (4 * m) (7 * m)

-- Sorts by parting a list at a pivot. Values equal to the pivot are set apart where nothing
-- is less than it, or where it equals the pivot that stands before the list. After `limit`
-- levels the list is sorted by its runs.
def byPivot? (less : α → α → Bool) : Nat → Option α → List α → Option (List α)
  | 0, _, xs =>
    if xs.length ≤ shortRun then sortShort? less xs else byRuns? less false some xs
  | limit + 1, lower, xs =>
    if xs.length ≤ shortRun then
      sortShort? less xs
    else
      match xs.splitAt (pivotPosition less xs.toArray) with
      | (_, []) => none
      | (before, pivot :: after) => do
        let below := before.filter (less · pivot) ++ after.filter (less · pivot)
        if below.isEmpty || lower.any (!less · pivot) then
          let equal := before.filter (!less pivot ·) ++ pivot :: after.filter (!less pivot ·)
          let above := before.filter (less pivot ·) ++ after.filter (less pivot ·)
          return equal ++ (← byPivot? less limit none above)
        else
          let above := before.filter (!less · pivot) ++ pivot :: after.filter (!less · pivot)
          let l ← byPivot? less limit lower below
          let r ← byPivot? less limit (some pivot) above
          return l ++ r

-- The length up to which a list is sorted by insertion.
def insertionLength : Nat := 20

-- Sorts by a relation that need not be an order. Some values then have no place, and what
-- becomes of them depends on which values are compared. There is no result where the
-- comparisons are seen to contradict each other.
def sortLoosely? (less : α → α → Bool) (xs : List α) : Option (List α) :=
  if xs.length ≤ insertionLength then
    some (byInsertion less xs)
  else
    let sort? (ys : List α) := byPivot? less (2 * (ys.length ||| 1).log2) none ys
    byRuns? less (2 * shortRun < xs.length) sort? xs

end Parlance.Sorting
