import Parlance.Heap

namespace Parlance.Heap

-- The depth to which collections are compared.
def compareDepth : Nat := 64

-- Whether two lists of one length agree position by position. The first difference ends
-- the comparison.
def itemsEqual (eq : Value → Value → Except Stop Bool) :
    List Value → List Value → Except Stop Bool
  | x :: xs, y :: ys => do
    if ← eq x y then itemsEqual eq xs ys else return false
  | _, _ => .ok true

-- Whether two tables of one size agree entry by entry.
def entriesEqual (eq : Value → Value → Except Stop Bool) :
    List (String × Value) → List (String × Value) → Except Stop Bool
  | (k, x) :: xs, (l, y) :: ys => do
    if k = l then
      if ← eq x y then entriesEqual eq xs ys else return false
    else
      return false
  | _, _ => .ok true

-- Equality of values that are not collections. Numbers of different kinds are equal as
-- doubles, and channels only to themselves.
def scalarEqual : Value → Value → Bool
  | .int a, .int b => a == b
  | .int a, .float b => Integer.toFloat a == b
  | .float a, .int b => a == Integer.toFloat b
  | .float a, .float b => a == b
  | .str a, .str b => a == b
  | .bool a, .bool b => a == b
  | .void, .void => true
  | .client a, .client b => a == b
  | .server a, .server b => a == b
  | _, _ => false

-- Equality of values whose collections are compared to a depth.
def equalTo (h : Heap) : Nat → Value → Value → Except Stop Bool
  | depth, .list a, .list b =>
    if a = b then .ok true
    else
      match depth with
      | 0 => refuse (.tooDeepToCompare compareDepth)
      | depth + 1 =>
        let xs := h.list a
        let ys := h.list b
        if xs.size = ys.size then itemsEqual (h.equalTo depth) xs.toList ys.toList
        else .ok false
  | depth, .dict a, .dict b =>
    if a = b then .ok true
    else
      match depth with
      | 0 => refuse (.tooDeepToCompare compareDepth)
      | depth + 1 =>
        let xs := h.dict a
        let ys := h.dict b
        if xs.size = ys.size then entriesEqual (h.equalTo depth) xs.entries ys.entries
        else .ok false
  | _, a, b => .ok (scalarEqual a b)

-- Whether two values are equal. Collections are equal if they are the same, or if they
-- hold equal values.
def equal (h : Heap) (a b : Value) : Except Stop Bool :=
  h.equalTo compareDepth a b

-- Equality that takes collections too deep to compare as different.
def same (h : Heap) (a b : Value) : Bool :=
  match h.equal a b with
  | .ok b => b
  | .error _ => false

end Parlance.Heap
