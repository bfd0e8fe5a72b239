import Parlance.Eval.Builtin
import Parlance.Heap.Index
import Parlance.Proofs.Integer

namespace Parlance

theorem toInt_min (a b : Int64) : (min a b).toInt = min a.toInt b.toInt := by
  rw [Std.min_eq_if, Int.min_def]
  simp only [Int64.le_iff_toInt_le]
  split <;> rfl

section

variable {length : Nat} (hfits : Integer.InRange length)

include hfits

theorem toInt_length : (Int64.ofNat length).toInt = length := by
  unfold Integer.InRange Integer.greatest at hfits
  exact Int64.toInt_ofNat_of_lt (by omega)

-- A negative number and a length together stay in the range of 64 bits.
theorem toInt_fromStart (i : Int64) :
    (fromStart i length).toInt = if i.toInt < 0 then i.toInt + length else i.toInt := by
  have hlength := toInt_length hfits
  have hi := Integer.inRange_toInt i
  unfold Integer.InRange Integer.least Integer.greatest at *
  simp only [fromStart, Int64.lt_iff_toInt_lt, Int64.toInt_zero]
  split
  · rw [Int64.toInt_add, hlength]
    exact Int.bmod_eq_of_le (by omega) (by omega)
  · rfl

-- An index names a position by its distance from the start, or from the end.
theorem resolveIndex?_eq_some_iff {i : Int64} {p : Nat} :
    resolveIndex? i length = some p ↔
      p < length ∧ (i.toInt = p ∨ i.toInt = (p : Int) - length) := by
  have hlength := toInt_length hfits
  have hstart := toInt_fromStart hfits i
  simp only [resolveIndex?, Int64.le_iff_toInt_le, Int64.lt_iff_toInt_lt, Int64.toInt_zero,
    hlength, Int64.toNatClampNeg, hstart]
  split <;> split <;> simp only [Option.some.injEq, reduceCtorEq, false_iff] <;> omega

theorem clampBound_eq (b : Int64) :
    (clampBound b length : Int) =
      max 0 (min (if b.toInt < 0 then b.toInt + length else b.toInt) length) := by
  have hlength := toInt_length hfits
  have hstart := toInt_fromStart hfits b
  rw [clampBound, Int64.toNatClampNeg, toInt_min, hlength, hstart]
  omega

theorem clampBound_le (b : Int64) : clampBound b length ≤ length := by
  have hclamp := clampBound_eq hfits b
  omega

-- A slice never leaves the sequence.
theorem sliceBounds_le (start stop : Option Int64) :
    (sliceBounds start stop length).1 ≤ (sliceBounds start stop length).2 ∧
      (sliceBounds start stop length).2 ≤ length := by
  have hclamp := clampBound_le hfits
  refine ⟨Nat.le_max_right _ _, Nat.max_le.mpr ⟨?_, ?_⟩⟩
  · cases stop with
    | none => exact Nat.le_refl _
    | some b => exact hclamp b
  · cases start with
    | none => exact Nat.zero_le _
    | some b => exact hclamp b

theorem sliceBounds_from (k : Int64) :
    sliceBounds (some k) none length = (clampBound k length, length) :=
  congrArg _ (Nat.max_eq_left (clampBound_le hfits k))

end

theorem sliceBounds_to (k : Int64) (length : Nat) :
    sliceBounds none (some k) length = (0, clampBound k length) :=
  congrArg _ (Nat.max_zero _)

-- The item that an index counts to, from the start or from the end.
def itemAt? (items : List Value) (i : Int) : Option Value :=
  if 0 ≤ i then items[i.toNat]?
  else if -(items.length : Int) ≤ i then items[(items.length + i).toNat]?
  else none

theorem bind_resolveIndex? {items : List Value} (hfits : Integer.InRange items.length)
    (i : Int64) : (resolveIndex? i items.length).bind (items[·]?) = itemAt? items i.toInt := by
  cases hp : resolveIndex? i items.length with
  | some p =>
    obtain ⟨hlt, hi⟩ := (resolveIndex?_eq_some_iff hfits).mp hp
    rw [Option.bind_some, itemAt?]
    rcases hi with hi | hi
    · rw [if_pos (by omega), hi, Int.toNat_natCast]
    · rw [if_neg (by omega), if_pos (by omega)]
      congr 1
      omega
  | none =>
    have hnone : ∀ p,
        ¬ (p < items.length ∧ (i.toInt = p ∨ i.toInt = (p : Int) - items.length)) := by
      intro p h
      rw [(resolveIndex?_eq_some_iff hfits).mpr h] at hp
      cases hp
    have hfront := hnone i.toInt.toNat
    have hback := hnone (items.length + i.toInt).toNat
    rw [Option.bind_none, itemAt?]
    split
    · exact (List.getElem?_eq_none (by omega)).symm
    · split
      · exact (List.getElem?_eq_none (by omega)).symm
      · rfl

namespace Heap

-- The items of a text are its characters.
def characters (s : String) : List Value :=
  s.toList.map fun c => .str c.toString

-- The lists and the texts, with their items.
inductive Sequence (h : Heap) : Value → List Value → Prop
  | list (ref : Nat) : Sequence h (.list ref) (h.list ref).toList
  | text (s : String) : Sequence h (.str s) (characters s)

theorem exists_sequence (h : Heap) {v : Value} (hv : v.ty = .list ∨ v.ty = .string) :
    ∃ items, h.Sequence v items := by
  cases v with
  | list ref => exact ⟨_, .list ref⟩
  | str s => exact ⟨_, .text s⟩
  | _ => rcases hv with ⟨⟨⟩⟩ | ⟨⟨⟩⟩

theorem length_characters (s : String) : (characters s).length = s.toList.length :=
  List.length_map _

-- What an index finds among some items, or the failure of an index that leads out of them.
def found (what : String) (items : List Value) (i : Int) : Except Stop Value :=
  (itemAt? items i).elim (refuse (.indexRange what i items.length)) .ok

theorem position_bind {items : List Value} (hfits : Integer.InRange items.length) (what : String)
    (i : Int64) {f : Nat → Value} (hf : ∀ p x, items[p]? = some x → f p = x) :
    (position what i items.length >>= fun p => .ok (f p)) = found what items i.toInt := by
  rw [found, ← bind_resolveIndex? hfits, position]
  cases hp : resolveIndex? i items.length with
  | none => rfl
  | some p =>
    have hx := List.getElem?_eq_getElem ((resolveIndex?_eq_some_iff hfits).mp hp).1
    rw [Option.bind_some, hx]
    exact congrArg Except.ok (hf p _ hx)

theorem slice_list (h : Heap) (ref : Nat) (start stop : Option Int64) :
    h.slice (.list ref) start stop =
      .ok (.list ((h.list ref).extract (sliceBounds start stop (h.list ref).size).1
        (sliceBounds start stop (h.list ref).size).2)) := rfl

theorem slice_str (h : Heap) (s : String) (start stop : Option Int64) :
    h.slice (.str s) start stop =
      .ok (.value (.str (String.ofList
        ((s.toList.take (sliceBounds start stop s.toList.length).2).drop
          (sliceBounds start stop s.toList.length).1)))) := rfl

theorem list_of_le {h : Heap} {ref : Nat} (href : h.lists.size ≤ ref) : h.list ref = #[] := by
  rw [list, Array.getD_eq_getD_getElem?, Array.getElem?_eq_none href, Option.getD_none]

theorem list_place (h : Heap) (items : Array Value) (ref : Nat) :
    (h.place (.list items)).2.list ref = if ref = h.lists.size then items else h.list ref := by
  simp only [list, place, Array.getD_eq_getD_getElem?, Array.getElem?_push]
  split <;> rfl

-- A value whose collection is in the heap.
def Has (h : Heap) : Value → Prop
  | .list ref => ref < h.lists.size
  | .dict ref => ref < h.dicts.size
  | _ => True

theorem has_place_list (h : Heap) (items : Array Value) :
    (h.place (.list items)).2.Has (.list h.lists.size) := by
  simp [Has, place]

namespace Sequence

variable {h : Heap} {v a b : Value} {items xs ys : List Value} {d : Draft}
  {start stop : Option Int64}

theorem iterate (hv : h.Sequence v items) : h.iterate v = .ok items := by
  cases hv <;> rfl

theorem length (hv : h.Sequence v items) : Builtin.length h v = .ok items.length := by
  cases hv with
  | list ref => rfl
  | text s => rw [length_characters, String.length_toList, Builtin.length]

theorem index (hv : h.Sequence v items) (hfits : Integer.InRange items.length) :
    ∃ what, ∀ i, h.index v (.int i) = found what items i.toInt := by
  cases hv with
  | list ref =>
    refine ⟨"list index", fun i => position_bind hfits _ i (f := fun p =>
      (h.list ref).getD p .void) ?_⟩
    intro p x hx
    rw [Array.getElem?_toList] at hx
    rw [Array.getD_eq_getD_getElem?, hx, Option.getD_some]
  | text s =>
    refine ⟨"string index", fun i => Eq.trans ?_ (position_bind hfits _ i (f := fun p =>
      .str (String.ofList ((s.toList.drop p).take 1))) ?_)⟩
    · rw [length_characters]
      rfl
    · intro p x hx
      rw [characters, List.getElem?_map, Option.map_eq_some_iff] at hx
      obtain ⟨c, hc, rfl⟩ := hx
      obtain ⟨hlt, rfl⟩ := List.getElem?_eq_some_iff.mp hc
      rw [List.drop_eq_getElem_cons hlt]
      rfl

-- What is placed in the heap is a sequence of its items.
theorem of_place (h : Heap) (items : Array Value) :
    (h.place (.list items)).2.Sequence (.list h.lists.size) items.toList := by
  have hnew := Sequence.list (h := (h.place (.list items)).2) h.lists.size
  rwa [list_place, if_pos rfl] at hnew

theorem of_ofList (h : Heap) (cs : List Char) :
    h.Sequence (.str (String.ofList cs)) (cs.map fun c => .str c.toString) := by
  have hnew := Sequence.text (h := h) (String.ofList cs)
  rwa [characters, String.toList_ofList] at hnew

-- What is placed leaves a sequence that is in the heap as it is.
theorem place (hv : h.Sequence v items) (hin : h.Has v) (d : Draft) :
    (h.place d).2.Sequence v items := by
  cases hv with
  | text s => exact .text s
  | list ref =>
    cases d with
    | value x => exact .list ref
    | dict entries => exact .list ref
    | list new =>
      have hne : ref ≠ h.lists.size := Nat.ne_of_lt hin
      have hold := Sequence.list (h := (h.place (.list new)).2) ref
      rwa [list_place, if_neg hne] at hold

-- A slice is the same kind of sequence. It takes the place of the sequence itself only if the
-- heap has no such list, and then both are empty.
theorem slice (hv : h.Sequence v items) (start stop : Option Int64) :
    ∃ d, h.slice v start stop = .ok d ∧ (h.place d).1.ty = v.ty ∧
      (h.place d).2.Has (h.place d).1 ∧ (h.place d).2.Sequence v items ∧
      (h.place d).2.Sequence (h.place d).1
        ((items.take (sliceBounds start stop items.length).2).drop
          (sliceBounds start stop items.length).1) := by
  cases hv with
  | list ref =>
    refine ⟨_, slice_list h ref start stop, rfl, has_place_list h _, ?_, ?_⟩
    · have hold := Sequence.list (h := (h.place (.list ((h.list ref).extract
        (sliceBounds start stop (h.list ref).size).1
        (sliceBounds start stop (h.list ref).size).2))).2) ref
      rw [list_place] at hold
      split at hold
      · next href =>
        rw [list_of_le (Nat.le_of_eq href.symm), Array.extract_empty] at hold ⊢
        exact hold
      · exact hold
    · have hnew := of_place h ((h.list ref).extract (sliceBounds start stop (h.list ref).size).1
        (sliceBounds start stop (h.list ref).size).2)
      rwa [Array.toList_extract, List.extract_eq_drop_take'] at hnew
  | text s =>
    refine ⟨_, slice_str h s start stop, rfl, trivial, .text s, ?_⟩
    rw [length_characters, characters, ← List.map_take, ← List.map_drop]
    exact of_ofList h _

theorem plus (ha : h.Sequence a xs) (hb : h.Sequence b ys) (hty : a.ty = b.ty) :
    ∃ d, h.arithmetic .plus a b = .ok d ∧ (h.place d).2.Sequence (h.place d).1 (xs ++ ys) := by
  cases ha with
  | list p =>
    cases hb with
    | text t => cases hty
    | list q =>
      refine ⟨_, rfl, ?_⟩
      have hnew := of_place h (h.list p ++ h.list q)
      rwa [Array.toList_append] at hnew
  | text s =>
    cases hb with
    | list q => cases hty
    | text t =>
      refine ⟨_, rfl, ?_⟩
      have hnew := Sequence.text (h := h) (s ++ t)
      rwa [characters, String.toList_append, List.map_append] at hnew

end Sequence

-- Takes a sequence apart at a bound and puts the two parts together again.
def rejoin (h : Heap) (v : Value) (k : Int64) : Except Stop (List Value) := do
  let left := h.place (← h.slice v none (some k))
  let right := left.2.place (← left.2.slice v (some k) none)
  let whole := right.2.place (← right.2.arithmetic .plus left.1 right.1)
  whole.2.iterate whole.1

theorem Sequence.rejoin {h : Heap} {v : Value} {items : List Value} (hv : h.Sequence v items)
    (hfits : Integer.InRange items.length) (k : Int64) : h.rejoin v k = .ok items := by
  obtain ⟨left, hleft, hleftTy, hin, hv', hleftItems⟩ := hv.slice none (some k)
  obtain ⟨right, hright, hrightTy, -, -, hrightItems⟩ := hv'.slice (some k) none
  obtain ⟨whole, hwhole, hitems⟩ :=
    (hleftItems.place hin right).plus hrightItems (hleftTy.trans hrightTy.symm)
  rw [sliceBounds_to, sliceBounds_from hfits, List.drop_zero, List.take_length,
    List.take_append_drop] at hitems
  simp only [Heap.rejoin, hleft, hright, hwhole, bind, Except.bind]
  exact hitems.iterate

-- Everything that reads a list or a text agrees with the items that a loop over it visits.
-- Positions are computed in 64 bits, which is exact for every length of 64 bits: whatever fits
-- into memory has one.
theorem sequences_are_read_alike (ev : Evaluators) (env : Nat) (w : World) {v : Value}
    (hv : v.ty = .list ∨ v.ty = .string) :
    ∃ items, w.heap.iterate v = .ok items ∧ Builtin.length w.heap v = .ok items.length ∧
      (Integer.InRange items.length →
        (∃ n : Int64, Eval.builtin ev env [v] .len w = .ok (.int n) w ∧ n.toInt = items.length) ∧
        (∃ what, ∀ i : Int64, w.heap.index v (.int i) =
          (itemAt? items i.toInt).elim (refuse (.indexRange what i.toInt items.length)) .ok) ∧
        (∀ start stop, ∃ first last, sliceBounds start stop items.length = (first, last) ∧
          first ≤ last ∧ last ≤ items.length ∧
          ∃ d, w.heap.slice v start stop = .ok d ∧ (w.heap.place d).1.ty = v.ty ∧
            (w.heap.place d).2.iterate (w.heap.place d).1 = .ok ((items.take last).drop first)) ∧
        (∀ i : Int64, (fromStart i items.length).toInt =
          if i.toInt < 0 then i.toInt + items.length else i.toInt) ∧
        ∀ k, w.heap.rejoin v k = .ok items) := by
  obtain ⟨items, hitems⟩ := exists_sequence w.heap hv
  refine ⟨items, hitems.iterate, hitems.length, fun hfits => ⟨?_, hitems.index hfits, ?_,
    toInt_fromStart hfits, hitems.rejoin hfits⟩⟩
  · refine ⟨Int64.ofNat items.length, ?_, toInt_length hfits⟩
    simp only [Eval.builtin, Eval.ofValue, Exec.reading, Builtin.one, hitems.length, bind,
      Except.bind, pure, Except.pure]
  · intro start stop
    obtain ⟨hfirst, hlast⟩ := sliceBounds_le hfits start stop
    obtain ⟨d, hd, hty, -, -, hslice⟩ := hitems.slice start stop
    exact ⟨_, _, rfl, hfirst, hlast, d, hd, hty, hslice.iterate⟩

-- Three characters of one, two and four bytes: the last one is counted from the end, and the
-- parts are put together at a bound far in front of the first.
theorem threeCharacters_are_read_alike :
    (Value.str "añ😀").ty = .string ∧ ∀ (ev : Evaluators) (env : Nat) (w : World),
      Eval.builtin ev env [.str "añ😀"] .len w = .ok (.int 3) w ∧
      w.heap.index (.str "añ😀") (.int (-1)) = .ok (.str "😀") ∧
      w.heap.rejoin (.str "añ😀") Int64.minValue = .ok [.str "a", .str "ñ", .str "😀"] := by
  refine ⟨rfl, fun ev env w => ?_⟩
  obtain ⟨items, hiterate, -, hread⟩ :=
    sequences_are_read_alike ev env w (v := .str "añ😀") (.inr rfl)
  have hcharacters : "añ😀".toList = ['a', 'ñ', '😀'] := by decide
  rw [Heap.iterate, hcharacters] at hiterate
  cases hiterate
  obtain ⟨⟨n, hlen, hn⟩, ⟨what, hindex⟩, -, -, hrejoin⟩ := hread (by decide)
  have hthree : n = 3 := Int64.toInt_inj.mp hn
  subst hthree
  exact ⟨hlen, hindex (-1), hrejoin Int64.minValue⟩

end Heap

end Parlance
