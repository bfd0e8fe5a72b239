import Parlance.Sorting.Insertion

namespace Parlance.Sorting

variable {α : Type}

-- Sorts four values by five comparisons: two pairs, their least and their greatest value,
-- and the two that are left.
def sortFour (less : α → α → Bool) (w x y z : α) : List α :=
  let (a, b) := if less x w then (x, w) else (w, x)
  let (c, d) := if less z y then (z, y) else (y, z)
  let fromSecond := less c a
  let fromFirst := less d b
  let least := if fromSecond then c else a
  let greatest := if fromFirst then b else d
  let left := if fromSecond then a else if fromFirst then c else b
  let right := if fromFirst then d else if fromSecond then b else c
  let (low, high) := if less right left then (right, left) else (left, right)
  [least, low, high, greatest]

-- Half of a short list is sorted by insertion. Where the list has eight values or more,
-- the first four of each half are put in order at once.
def sortHalf (less : α → α → Bool) (fours : Bool) (xs : List α) : List α :=
  match fours, xs with
  | true, w :: x :: y :: z :: rest => insertAll less (sortFour less w x y z) rest
  | _, xs => byInsertion less xs

-- The first `n` values of a merge, and how many of them come from the left.
def mergeSteps (fromRight : α → α → Bool) : Nat → List α → List α → List α × Nat
  | n + 1, x :: xs, y :: ys =>
    if fromRight x y then
      let (taken, k) := mergeSteps fromRight n (x :: xs) ys
      (y :: taken, k)
    else
      let (taken, k) := mergeSteps fromRight n xs (y :: ys)
      (x :: taken, k + 1)
  | _, _, _ => ([], 0)

-- Merges two sorted halves from both ends at once; the right one may be longer by a value.
-- What is taken from the two ends is the whole only if the comparisons agree with each
-- other, and there is no result if they do not.
def mergeInward? (less : α → α → Bool) (left right : List α) : Option (List α) :=
  let half := left.length
  let (front, a) := mergeSteps (fun x y => less y x) half left right
  let (back, b) := mergeSteps (fun x y => !less y x) half left.reverse right.reverse
  if right.length = half then
    if a + b = half then some (front ++ back.reverse) else none
  else if a + b + 1 = half then
    some (front ++ (left.drop a).take 1 ++ back.reverse)
  else if a + b = half then
    some (front ++ (right.drop (half - a)).take 1 ++ back.reverse)
  else
    none

-- The length up to which a list is sorted by its halves.
def shortRun : Nat := 32

def sortShort? (less : α → α → Bool) (xs : List α) : Option (List α) :=
  let half := xs.length / 2
  let fours := decide (8 ≤ xs.length)
  if half = 0 then some xs
  else mergeInward? less (sortHalf less fours (xs.take half)) (sortHalf less fours (xs.drop half))

end Parlance.Sorting
