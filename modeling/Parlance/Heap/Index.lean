import Parlance.Heap

namespace Parlance

-- A position of a sequence that is counted from its start, or from its end if it is negative.
def fromStart (i : Int64) (length : Nat) : Int64 :=
  if i < 0 then i + Int64.ofNat length else i

-- The position that an index names in a sequence.
def resolveIndex? (index : Int64) (length : Nat) : Option Nat :=
  let i := fromStart index length
  if 0 ≤ i ∧ i < Int64.ofNat length then some i.toNatClampNeg else none

-- A bound of a slice, moved into the sequence.
def clampBound (bound : Int64) (length : Nat) : Nat :=
  (min (fromStart bound length) (Int64.ofNat length)).toNatClampNeg

-- The positions that a slice runs from and to.
def sliceBounds (start stop : Option Int64) (length : Nat) : Nat × Nat :=
  let first := match start with
    | some b => clampBound b length
    | none => 0
  let last := match stop with
    | some b => clampBound b length
    | none => length
  (first, max last first)

def position (what : String) (index : Int64) (length : Nat) : Except Stop Nat :=
  match resolveIndex? index length with
  | some slot => .ok slot
  | none => refuse (.indexRange what index.toInt length)

namespace Heap

-- The element of a collection at an index.
def index (h : Heap) (container i : Value) : Except Stop Value := do
  match container with
  | .list ref =>
    let items := h.list ref
    let slot ← position "list index" (← i.asInt "list index") items.size
    return items.getD slot .void
  | .str s =>
    let cs := s.toList
    let slot ← position "string index" (← i.asInt "string index") cs.length
    return .str (cs.drop slot |>.take 1 |> String.ofList)
  | .dict ref =>
    let key ← i.asText "dict key"
    match (h.dict ref).get? key with
    | some v => return v
    | none => refuse (.missingKey key)
  | v => refuse (.notIndexable v.ty)

-- The part of a sequence between two bounds.
def slice (h : Heap) (container : Value) (start stop : Option Int64) : Except Stop Draft :=
  match container with
  | .list ref =>
    let items := h.list ref
    let (first, last) := sliceBounds start stop items.size
    .ok (.list (items.extract first last))
  | .str s =>
    let cs := s.toList
    let (first, last) := sliceBounds start stop cs.length
    .ok (.value (.str (String.ofList (cs.take last |>.drop first))))
  | v => refuse (.notSliceable v.ty)

-- A place in a collection that a value can be stored at.
inductive Slot where
  | item (ref position : Nat)
  | entry (ref : Nat) (key : String)

-- The place that an index names. A dictionary has a place for every text.
def slot (h : Heap) (container i : Value) : Except Stop Slot := do
  match container with
  | .list ref =>
    let slot ← position "list index" (← i.asInt "list index") (h.list ref).size
    return .item ref slot
  | .dict ref =>
    let key ← i.asText "dict key"
    return .entry ref key
  | v => refuse (.notContainer v.ty)

def put (h : Heap) (v : Value) : Slot → Heap
  | .item ref i => { h with lists := h.lists.modify ref (·.set! i v) }
  | .entry ref key => { h with dicts := h.dicts.modify ref (·.insert key v) }

theorem servers_put (h : Heap) (v : Value) (slot : Slot) : (h.put v slot).servers = h.servers := by
  cases slot <;> rfl

theorem clients_put (h : Heap) (v : Value) (slot : Slot) : (h.put v slot).clients = h.clients := by
  cases slot <;> rfl

theorem connections_put (h : Heap) (v : Value) (slot : Slot) :
    (h.put v slot).connections = h.connections := by
  cases slot <;> rfl

end Heap

end Parlance
