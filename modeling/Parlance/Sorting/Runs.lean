import Parlance.Sorting.Short

namespace Parlance.Sorting

variable {α : Type}

-- A stretch of a list that is sorted, or that is left to be sorted with its neighbours.
structure Run (α : Type) where
  items : List α
  sorted : Bool

-- The number of values that carry on a run after its last one.
def carriedOn (keeps : α → α → Bool) (last : α) : List α → Nat
  | [] => 0
  | x :: xs => if keeps last x then carriedOn keeps x xs + 1 else 0

-- The length of the run that a list begins with, and whether it falls.
def firstRun (less : α → α → Bool) : List α → Nat × Bool
  | x :: y :: ys =>
    if less y x then (carriedOn (fun a b => less b a) y ys + 2, true)
    else (carriedOn (fun a b => !less b a) y ys + 2, false)
  | xs => (xs.length, false)

-- Takes a run off a list. One that is long enough is taken as it is, or turned round if it
-- falls. Otherwise a short stretch is sorted, or a longer one put off.
def cutRun? (less : α → α → Bool) (putOff : Bool) (enough : Nat) (xs : List α) :
    Option (Run α × List α) :=
  let (n, falls) := firstRun less xs
  if enough ≤ n then
    some (⟨if falls then (xs.take n).reverse else xs.take n, true⟩, xs.drop n)
  else if putOff then
    some (⟨xs.take enough, false⟩, xs.drop enough)
  else
    (sortShort? less (xs.take shortRun)).map fun items => (⟨items, true⟩, xs.drop shortRun)

-- Merges two sorted lists from the front, or from the back if the right one is shorter.
def mergeLists (less : α → α → Bool) (left right : List α) : List α :=
  if left.length ≤ right.length then
    left.merge right fun x y => !less y x
  else
    (left.reverse.merge right.reverse fun x y => less y x).reverse

def Run.settle? (sort? : List α → Option (List α)) (run : Run α) : Option (List α) :=
  if run.sorted then some run.items else sort? run.items

-- Two neighbours become one run. If neither is sorted, that is put off again.
def Run.join? (less : α → α → Bool) (sort? : List α → Option (List α)) (left right : Run α) :
    Option (Run α) :=
  if left.sorted || right.sorted then do
    let l ← left.settle? sort?
    let r ← right.settle? sort?
    return ⟨mergeLists less l r, true⟩
  else
    some ⟨left.items ++ right.items, false⟩

-- How deep the border of two runs lies in a tree that halves the whole list: the number of
-- halvings until the middles of the two runs fall apart.
def borderDepth (total start middle stop : Nat) : Nat :=
  let scale := (Nat.pow 2 62 + total - 1) / total
  let apart := (scale * (start + middle)) ^^^ (scale * (middle + stop))
  if apart = 0 then 64 else 63 - apart.log2

-- Joins a run with those before it, the nearest first, whose borders lie at least as deep.
def collapse? (join? : Run α → Run α → Option (Run α)) (depth : Nat) (run : Run α) :
    List (Run α × Nat) → Option (Run α × List (Run α × Nat))
  | [] => some (run, [])
  | (left, d) :: before =>
    if depth ≤ d then do
      let joined ← join? left run
      collapse? join? depth joined before
    else
      some (run, (left, d) :: before)

-- Cuts the rest of a list into runs and joins them. `start` is the position of the last
-- run, and there are at most `count` runs to come.
def gather? (join? : Run α → Run α → Option (Run α))
    (cut? : List α → Option (Run α × List α)) (total : Nat) :
    Nat → Nat → Run α → List (Run α × Nat) → List α → Option (Run α)
  | count + 1, start, last, before, x :: xs => do
    let (next, rest) ← cut? (x :: xs)
    let middle := start + last.items.length
    let depth := borderDepth total start middle (middle + next.items.length)
    let (joined, before) ← collapse? join? depth last before
    gather? join? cut? total count middle next ((joined, depth) :: before) rest
  | _, _, last, before, _ => (collapse? join? 0 last before).map (·.1)

-- About the square root of a number.
def roughRoot (n : Nat) : Nat :=
  let shift := (1 + (n ||| 1).log2) / 2
  (Nat.pow 2 shift + n / Nat.pow 2 shift) / 2

-- The length from which a run is taken as it is.
def enoughFor (n : Nat) : Nat :=
  if n ≤ 4096 then min (n - n / 2) 64 else roughRoot n

-- Sorts by the runs of a list. What is put off is sorted in the other way.
def byRuns? (less : α → α → Bool) (putOff : Bool) (sort? : List α → Option (List α))
    (xs : List α) : Option (List α) := do
  let total := xs.length
  let cut? := cutRun? less putOff (enoughFor total)
  let (first, rest) ← cut? xs
  let whole ← gather? (Run.join? less sort?) cut? total total 0 first [] rest
  whole.settle? sort?

end Parlance.Sorting
