import Parlance.Builtin
import Parlance.Heap.Display
import Parlance.Heap.Operator
import Parlance.Sorting
import Parlance.Sorting.Pivot
import Parlance.Text.Search

namespace Parlance.Builtin

-- The number of characters, items or keys.
def length (h : Heap) : Value → Except Stop Nat
  | .str s => .ok s.length
  | .list ref => .ok (h.list ref).size
  | .dict ref => .ok (h.dict ref).size
  | v => refuse (.noLength v.ty)

-- The place of a list, for a function that takes nothing else.
def listOf (b : Builtin) : Value → Except Stop Nat
  | .list ref => .ok ref
  | v => refuse (.needs b.name .list v.ty)

-- Adds a value to a total, which is an integer as long as all values are.
def addTo (total v : Value) : Except Stop Value :=
  match total, v with
  | .int a, .int b => exactly (Integer.add? a b)
  | a, b => do return .float ((← a.asFloat "sum element") + (← b.asFloat "sum element"))

def total (items : List Value) : Except Stop Value :=
  items.foldlM addTo (.int 0)

def occurs (h : Heap) (v : Value) (items : List Value) : Bool :=
  items.any fun item => h.same item v

-- The values of one list that are also in another, each once and in the order of the first.
def common (h : Heap) (xs ys : List Value) : List Value :=
  xs.foldl (fun found v => if occurs h v ys && !occurs h v found then found ++ [v] else found) []

-- Whether a value is equal to one of a list. Those behind it are not looked at.
def search (h : Heap) (v : Value) : List Value → Except Stop Bool
  | [] => .ok false
  | item :: rest => do
    if ← h.equal item v then return true else search h v rest

-- Whether a container holds a key, an item or a text.
def holds (h : Heap) (container v : Value) : Except Stop Bool :=
  match container with
  | .dict ref => .ok ((h.dict ref).contains (h.display v))
  | .list ref => search h v (h.list ref).toList
  | .str s => do return Text.contains s (← v.asText "substring")
  | w => refuse (.notSearchable w.ty)

-- The order that lists are sorted in: texts by their characters, numbers as doubles.
def sortsBefore (a b : Value) : Bool :=
  match a, b with
  | .str a, .str b => a < b
  | a, b =>
    match a.toFloat?, b.toFloat? with
    | some x, some y => x < y
    | _, _ => false

-- What stands in no order with any number.
def isUnordered : Value → Bool
  | .float x => x.isNaN
  | _ => false

-- Only numbers and only texts can be sorted. A list with a value that has no place in the
-- order is sorted as far as it goes.
def sorted (items : List Value) : Except Stop (List Value) :=
  if items.all Value.isNumber || items.all Value.isText then
    if items.any isUnordered then
      match Sorting.sortLoosely? sortsBefore items with
      | some items => .ok items
      | none => .error .crash
    else
      .ok (Sorting.sort sortsBefore items)
  else
    refuse .mixedSort

end Parlance.Builtin
