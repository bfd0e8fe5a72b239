import Parlance.Eval.Stmt
import Parlance.Host.Local
import Parlance.Proofs.Sorting.Stable
import Parlance.Proofs.Text.Encoding

namespace Parlance

namespace Heap

-- A heap that differs from another one by what one list holds, and in nothing else.
structure Refilled (h : Heap) (ref : Nat) (items : Array Value) (g : Heap) : Prop where
  holds : g.list ref = items
  lists : ∀ r, r ≠ ref → g.list r = h.list r
  count : g.lists.size = h.lists.size
  dicts : g.dicts = h.dicts
  channels : g.clients = h.clients ∧ g.servers = h.servers ∧ g.connections = h.connections

-- A place without a list reads as an empty one, and stays empty.
theorem list_setList (h : Heap) {ref : Nat} {items : Array Value}
    (hsize : items.size = (h.list ref).size) (r : Nat) :
    (h.setList ref items).list r = if r = ref then items else h.list r := by
  simp only [list, setList, Array.getD_eq_getD_getElem?, Array.set!_eq_setIfInBounds,
    Array.getElem?_setIfInBounds] at hsize ⊢
  by_cases hr : ref = r
  · subst hr
    by_cases href : ref < h.lists.size
    · simp [href]
    · simp only [Array.getElem?_eq_none (Nat.le_of_not_lt href), Option.getD_none] at hsize
      have hempty : items = #[] := Array.size_eq_zero_iff.mp hsize
      simp [href, hempty]
  · simp [hr, Ne.symm hr]

theorem refilled_setList (h : Heap) {ref : Nat} {items : Array Value}
    (hsize : items.size = (h.list ref).size) : h.Refilled ref items (h.setList ref items) where
  holds := by rw [list_setList h hsize, if_pos rfl]
  lists r hr := by rw [list_setList h hsize, if_neg hr]
  count := by simp [setList]
  dicts := rfl
  channels := ⟨rfl, rfl, rfl⟩

theorem setList_setList (h : Heap) (ref : Nat) (items : Array Value) :
    (h.setList ref items).setList ref items = h.setList ref items := by
  simp [setList]

end Heap

namespace Text

-- Texts in the order of their characters.
def inOrder (ts : List String) : List String :=
  Sorting.sort (fun s t => decide (s < t)) ts

theorem ordered : Sorting.Ordered fun s t : String => decide (s < t) where
  asymm := by
    simp only [decide_eq_true_eq, decide_eq_false_iff_not]
    exact String.lt_asymm
  trans := by
    simp only [decide_eq_false_iff_not, String.not_lt]
    exact String.le_trans

theorem bytes_le_iff {s t : String} : bytes s ≤ bytes t ↔ s ≤ t := by
  rw [← List.not_lt, ← lt_iff_bytes_lt, String.not_lt]

theorem inOrder_perm (ts : List String) : (inOrder ts).Perm ts :=
  Sorting.sort_perm _ ts

theorem inOrder_pairwise (ts : List String) :
    (inOrder ts).Pairwise fun s t => bytes s ≤ bytes t := by
  refine (ordered.sort_pairwise ts).imp fun hst => ?_
  rw [decide_eq_false_iff_not, String.not_lt] at hst
  exact bytes_le_iff.mpr hst

-- Texts have one order only.
theorem eq_inOrder {ts us : List String} (hperm : us.Perm ts)
    (hordered : us.Pairwise fun s t => bytes s ≤ bytes t) : us = inOrder ts := by
  refine List.Perm.eq_of_pairwise (fun s t _ _ hst hts => ?_) hordered (inOrder_pairwise ts)
    (hperm.trans (inOrder_perm ts).symm)
  exact String.le_antisymm (bytes_le_iff.mp hst) (bytes_le_iff.mp hts)

theorem inOrder_inOrder (ts : List String) : inOrder (inOrder ts) = inOrder ts :=
  ordered.sort_sort ts

end Text

theorem Value.isNumber_iff {v : Value} : v.isNumber = true ↔ v.ty = .number := by
  cases v <;> simp [isNumber, ty]

theorem Value.isText_iff {v : Value} : v.isText = true ↔ v.ty = .string := by
  cases v <;> simp [isText, ty]

namespace Builtin

-- Lists of numbers alone or of texts alone, which can be sorted.
def Sortable (items : List Value) : Prop :=
  (∀ v ∈ items, v.ty = .number) ∨ ∀ v ∈ items, v.ty = .string

theorem sorted_of_not_sortable {items : List Value} (h : ¬ Sortable items) :
    sorted items = refuse .mixedSort := by
  refine if_neg ?_
  simp only [Bool.or_eq_true, List.all_eq_true, Value.isNumber_iff, Value.isText_iff]
  exact h

-- Values of one kind are sorted by any comparison that agrees with theirs.
theorem sorted_map {α : Type} {less : α → α → Bool} (f : α → Value)
    (hkind : (∀ a, (f a).isNumber = true) ∨ ∀ a, (f a).isText = true)
    (hordered : ∀ a, isUnordered (f a) = false)
    (hless : ∀ a b, sortsBefore (f a) (f b) = less a b) (xs : List α) :
    sorted (xs.map f) = .ok ((Sorting.sort less xs).map f) := by
  have hall : ((xs.map f).all Value.isNumber || (xs.map f).all Value.isText) = true := by
    rcases hkind with h | h
    · simp [h]
    · simp [h]
  have hany : (xs.map f).any isUnordered = false := by simp [hordered]
  rw [sorted, if_pos hall, hany, if_neg Bool.false_ne_true, Sorting.sort_map f hless]

theorem sorted_texts (ts : List String) :
    sorted (ts.map .str) = .ok ((Text.inOrder ts).map .str) :=
  sorted_map Value.str (.inr fun _ => rfl) (fun _ => rfl) (fun _ _ => rfl) ts

end Builtin

section

variable (ev : Evaluators) (env : Nat) (w : World) {ref : Nat}

theorem listOf_one_sort (ref : Nat) :
    (Builtin.sort.one [.list ref] >>= Builtin.sort.listOf) = .ok ref := rfl

theorem builtin_sort_of_sorted {items : List Value}
    (h : Builtin.sorted (w.heap.list ref).toList = .ok items) :
    Eval.builtin ev env [.list ref] .sort w =
      .ok .void { w with heap := w.heap.setList ref items.toArray } := by
  simp only [Eval.builtin, Eval.sort, Exec.bind_apply, Exec.require, Exec.reading,
    listOf_one_sort, h]
  rfl

-- What is sorted already is left as it is.
theorem builtin_sort_in_place {α : Type} (f : α → Value) {xs ys : List α}
    (hxs : (w.heap.list ref).toList = xs.map f) (hperm : ys.Perm xs)
    (hsorted : Builtin.sorted (xs.map f) = .ok (ys.map f))
    (hagain : Builtin.sorted (ys.map f) = .ok (ys.map f)) :
    ∃ g, Eval.builtin ev env [.list ref] .sort w = .ok .void { w with heap := g } ∧
      w.heap.Refilled ref (ys.map f).toArray g ∧
      Eval.builtin ev env [.list ref] .sort { w with heap := g } =
        .ok .void { w with heap := g } := by
  have hsize := congrArg List.length hxs
  have hfilled : w.heap.Refilled ref (ys.map f).toArray
      (w.heap.setList ref (ys.map f).toArray) := by
    apply Heap.refilled_setList
    rw [List.size_toArray, List.length_map, hperm.length_eq, ← Array.length_toList, hsize,
      List.length_map]
  rw [← hxs] at hsorted
  refine ⟨_, builtin_sort_of_sorted ev env w hsorted, hfilled, ?_⟩
  have hholds : Builtin.sorted ((w.heap.setList ref (ys.map f).toArray).list ref).toList =
      .ok (ys.map f) := by
    rw [hfilled.holds]
    exact hagain
  have hrun := builtin_sort_of_sorted ev env
    { w with heap := w.heap.setList ref (ys.map f).toArray } hholds
  simpa only [Heap.setList_setList] using hrun

theorem builtin_sort_of_not_sortable (h : ¬ Builtin.Sortable (w.heap.list ref).toList) :
    Eval.builtin ev env [.list ref] .sort w = .error (.fault (.runtime .mixedSort)) w := by
  simp only [Eval.builtin, Eval.sort, Exec.bind_apply, Exec.require, Exec.reading,
    listOf_one_sort, Builtin.sorted_of_not_sortable h, refuse]

theorem builtin_sort_of_not_list {v : Value} (h : v.ty ≠ .list) :
    Eval.builtin ev env [v] .sort w =
      .error (.fault (.runtime (.needs Builtin.sort.name .list v.ty))) w := by
  cases v with
  | list ref => exact absurd rfl h
  | _ => rfl

end

-- Texts are compared by their bytes.
theorem relational_less_texts (h : Heap) (s t : String) :
    (h.relational .less (.str s) (.str t) = .ok (.bool true) ↔ Text.bytes s < Text.bytes t) ∧
    (h.relational .less (.str s) (.str t) = .ok (.bool false) ↔
      Text.bytes t ≤ Text.bytes s) := by
  have hless : h.relational .less (.str s) (.str t) = .ok (.bool (compare s t == .lt)) := rfl
  have hcompare : compare s t = .lt ↔ s < t := compareOfLessAndEq_eq_lt
  rw [Text.bytes_le_iff, ← String.not_lt, ← Text.lt_iff_bytes_lt, hless, ← hcompare]
  simp

-- Sorting a list of texts puts them in the one order that their bytes give, in the place of the
-- list and nowhere else. Sorting anything but numbers or texts changes nothing.
theorem texts_are_sorted_in_place (ev : Evaluators) (env : Nat) (w : World) :
    (∀ (ref : Nat) (ts : List String), (w.heap.list ref).toList = ts.map .str →
      ∃ us g, Eval.builtin ev env [.list ref] .sort w = .ok .void { w with heap := g } ∧
        w.heap.Refilled ref (us.map .str).toArray g ∧
        us.Perm ts ∧ (us.Pairwise fun s t => Text.bytes s ≤ Text.bytes t) ∧
        (∀ vs : List String, vs.Perm ts →
          (vs.Pairwise fun s t => Text.bytes s ≤ Text.bytes t) → vs = us) ∧
        Eval.builtin ev env [.list ref] .sort { w with heap := g } =
          .ok .void { w with heap := g }) ∧
    (∀ s t : String,
      (w.heap.relational .less (.str s) (.str t) = .ok (.bool true) ↔
        Text.bytes s < Text.bytes t) ∧
      (w.heap.relational .less (.str s) (.str t) = .ok (.bool false) ↔
        Text.bytes t ≤ Text.bytes s)) ∧
    (∀ ref : Nat, ¬ Builtin.Sortable (w.heap.list ref).toList →
      Eval.builtin ev env [.list ref] .sort w = .error (.fault (.runtime .mixedSort)) w) ∧
    (∀ v : Value, v.ty ≠ .list →
      Eval.builtin ev env [v] .sort w =
        .error (.fault (.runtime (.needs Builtin.sort.name .list v.ty))) w) := by
  refine ⟨?_, relational_less_texts w.heap, fun ref => builtin_sort_of_not_sortable ev env w,
    fun v => builtin_sort_of_not_list ev env w⟩
  intro ref ts hts
  have hagain := Builtin.sorted_texts (Text.inOrder ts)
  rw [Text.inOrder_inOrder] at hagain
  obtain ⟨g, hrun, hfilled, hstill⟩ := builtin_sort_in_place ev env w Value.str hts
    (Text.inOrder_perm ts) (Builtin.sorted_texts ts) hagain
  exact ⟨_, g, hrun, hfilled, Text.inOrder_perm ts, Text.inOrder_pairwise ts,
    fun vs => Text.eq_inOrder, hstill⟩

-- A list of two characters that stand in the other order when they are written in units of 16
-- bits, and a list of itself.
def symbols : World :=
  let w := World.fresh (.captured "") ⟨true, .loopback⟩
  { w with heap := { w.heap with lists := #[#[.str "😀", .str "ﬀ"], #[.list 1]] } }

theorem symbols_are_sorted_in_place :
    (symbols.heap.list 0).toList = ["😀", "ﬀ"].map .str ∧
    ¬ Builtin.Sortable (symbols.heap.list 1).toList ∧ Value.void.ty ≠ .list ∧
    (∃ g, Eval.builtin (evaluators 0) globals [.list 0] .sort symbols =
        .ok .void { symbols with heap := g } ∧
      g.list 0 = #[.str "ﬀ", .str "😀"] ∧ g.list 1 = symbols.heap.list 1) ∧
    Eval.builtin (evaluators 0) globals [.list 1] .sort symbols =
      .error (.fault (.runtime .mixedSort)) symbols ∧
    Eval.builtin (evaluators 0) globals [.void] .sort symbols =
      .error (.fault (.runtime (.needs "sort" .list .void))) symbols := by
  have hlist : (symbols.heap.list 0).toList = ["😀", "ﬀ"].map .str := rfl
  have hmixed : ¬ Builtin.Sortable (symbols.heap.list 1).toList := by
    have hmem : Value.list 1 ∈ (symbols.heap.list 1).toList := .head _
    rintro (h | h) <;> exact absurd (h _ hmem) (by decide)
  obtain ⟨hsort, -, hmixedSort, hother⟩ := texts_are_sorted_in_place (evaluators 0) globals symbols
  obtain ⟨us, g, hrun, hfilled, -, -, hunique, -⟩ := hsort 0 _ hlist
  have hus : ["ﬀ", "😀"] = us := hunique _ (.swap _ _ _) (by decide)
  subst hus
  exact ⟨hlist, hmixed, by decide, ⟨g, hrun, hfilled.holds, hfilled.lists 1 (by decide)⟩,
    hmixedSort 1 hmixed, hother .void (by decide)⟩

end Parlance
