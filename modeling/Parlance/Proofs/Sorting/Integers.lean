import Parlance.Host.Local
import Parlance.Proofs.Double.Conversion
import Parlance.Proofs.Sorting.InPlace

namespace Parlance

namespace Integer

open Double

-- Integers in the order of the doubles next to them.
def inOrder (ns : List Int64) : List Int64 :=
  Sorting.sort (fun a b => decide (toFloat a < toFloat b)) ns

theorem ordered : Sorting.Ordered fun a b : Int64 => decide (toFloat a < toFloat b) where
  asymm := by
    simp only [decide_eq_true_eq, decide_eq_false_iff_not, toFloat_lt_iff]
    omega
  trans := by
    simp only [decide_eq_false_iff_not, toFloat_lt_iff]
    omega

theorem inOrder_perm (ns : List Int64) : (inOrder ns).Perm ns :=
  Sorting.sort_perm _ ns

theorem inOrder_inOrder (ns : List Int64) : inOrder (inOrder ns) = inOrder ns :=
  ordered.sort_sort ns

-- A lesser integer never has the greater double, so that the two are told apart or tied.
theorem tied_of_lt {a b : Int64} (hlt : a < b) (h : ¬ toFloat a < toFloat b) :
    Sorting.tied (fun a b : Int64 => decide (toFloat a < toFloat b)) b a = true := by
  have hmono := nearestInt_mono (Int.le_of_lt (Int64.lt_iff_toInt_lt.mp hlt))
  simp only [Sorting.tied, Bool.and_eq_true, Bool.not_eq_true', decide_eq_false_iff_not]
  rw [toFloat_lt_iff] at h ⊢
  rw [toFloat_lt_iff]
  omega

theorem toFloat_lt_of_exact {a b : Int64} (ha : a.toInt.natAbs ≤ 2 ^ 53)
    (hb : b.toInt.natAbs ≤ 2 ^ 53) (h : a < b) : toFloat a < toFloat b := by
  rw [toFloat_lt_iff, nearestInt_of_le ha, nearestInt_of_le hb]
  exact Int64.lt_iff_toInt_lt.mp h

-- The order of the doubles is that of the integers as far as no integers that stand in
-- descending order have the same double: those stay as they stand.
theorem inOrder_pairwise_iff (ns : List Int64) :
    ((inOrder ns).Pairwise fun x y => ¬ y < x) ↔
      ns.Pairwise fun x y => y < x → toFloat y < toFloat x := by
  simp only [List.pairwise_iff_forall_sublist]
  constructor
  · intro h x y hsub hlt
    refine Decidable.byContradiction fun hnot => ?_
    exact h ((ordered.pair_sublist_sort_iff (tied_of_lt hlt hnot)).mpr hsub) hlt
  · intro h x y hsub hlt
    have hnot : ¬ toFloat y < toFloat x := by
      have hpair := List.pairwise_iff_forall_sublist.mp (ordered.sort_pairwise ns) hsub
      exact of_decide_eq_false hpair
    exact hnot (h ((ordered.pair_sublist_sort_iff (tied_of_lt hlt hnot)).mp hsub) hlt)

end Integer

theorem Builtin.sorted_integers (ns : List Int64) :
    sorted (ns.map .int) = .ok ((Integer.inOrder ns).map .int) :=
  sorted_map Value.int (.inl fun _ => rfl) (fun _ => rfl) (fun _ _ => rfl) ns

theorem relational_less_integers (h : Heap) (a b : Int64) :
    h.relational .less (.int a) (.int b) = .ok (.bool (decide (a < b))) := by
  have hcompare : (compare a.toInt b.toInt == .lt) = decide (a < b) := by
    rw [Bool.eq_iff_iff, beq_iff_eq, compare_lt_iff_lt, decide_eq_true_eq,
      Int64.lt_iff_toInt_lt]
  rw [← hcompare]
  rfl

-- Integers are sorted in the place of their list, but by the doubles next to them: they are then
-- in the order in which they are compared exactly if no two of them that stood in descending
-- order have the same double. Integers that are no greater than 2 ^ 53 in size always are.
theorem integers_are_sorted_as_doubles (ev : Evaluators) (env : Nat) (w : World) (ref : Nat)
    (ns : List Int64) (hns : (w.heap.list ref).toList = ns.map .int) :
    ∃ (ms : List Int64) (g : Heap),
      Eval.builtin ev env [.list ref] .sort w = .ok .void { w with heap := g } ∧
      w.heap.Refilled ref (ms.map .int).toArray g ∧ ms.Perm ns ∧
      ((ms.Pairwise fun x y => g.relational .less (.int y) (.int x) = .ok (.bool false)) ↔
        ns.Pairwise fun x y => w.heap.relational .less (.int y) (.int x) = .ok (.bool true) →
          Integer.toFloat y < Integer.toFloat x) ∧
      ((∀ n ∈ ns, n.toInt.natAbs ≤ 2 ^ 53) →
        ms.Pairwise fun x y => g.relational .less (.int y) (.int x) = .ok (.bool false)) := by
  have hagain := Builtin.sorted_integers (Integer.inOrder ns)
  rw [Integer.inOrder_inOrder] at hagain
  obtain ⟨g, hrun, hfilled, -⟩ := builtin_sort_in_place ev env w Value.int hns
    (Integer.inOrder_perm ns) (Builtin.sorted_integers ns) hagain
  have hiff := Integer.inOrder_pairwise_iff ns
  refine ⟨_, g, hrun, hfilled, Integer.inOrder_perm ns, ?_⟩
  simp only [relational_less_integers, Except.ok.injEq, Value.bool.injEq,
    decide_eq_false_iff_not, decide_eq_true_eq]
  refine ⟨hiff, fun hexact => hiff.mpr ?_⟩
  exact List.pairwise_of_forall_mem_list fun x hx y hy =>
    Integer.toFloat_lt_of_exact (hexact y hy) (hexact x hx)

-- A world with one list of integers.
def World.ofIntegers (ns : List Int64) : World :=
  let w := World.fresh (.captured "") ⟨true, .loopback⟩
  { w with heap := { w.heap with lists := #[(ns.map .int).toArray] } }

-- Integers beyond 53 bits are sorted as long as their doubles differ.
theorem even_neighbours_are_sorted :
    ((World.ofIntegers [9007199254740994, -1, 9007199254740992]).heap.list 0).toList =
      [9007199254740994, -1, 9007199254740992].map .int ∧
    ∃ (ms : List Int64) (g : Heap),
      Eval.builtin (evaluators 0) globals [.list 0] .sort
          (World.ofIntegers [9007199254740994, -1, 9007199254740992]) =
        .ok .void { World.ofIntegers [9007199254740994, -1, 9007199254740992] with heap := g } ∧
      g.list 0 = (ms.map .int).toArray ∧ ms.Perm [9007199254740994, -1, 9007199254740992] ∧
      ms.Pairwise fun x y => g.relational .less (.int y) (.int x) = .ok (.bool false) := by
  have hlist : ((World.ofIntegers [9007199254740994, -1, 9007199254740992]).heap.list 0).toList =
      [9007199254740994, -1, 9007199254740992].map .int := rfl
  have hapart : [9007199254740994, -1, 9007199254740992].Pairwise fun x y : Int64 =>
      y < x → Double.nearestInt y.toInt < Double.nearestInt x.toInt := by decide +kernel
  obtain ⟨ms, g, hrun, hfilled, hperm, hiff, -⟩ :=
    integers_are_sorted_as_doubles (evaluators 0) globals _ 0 _ hlist
  refine ⟨hlist, ms, g, hrun, hfilled.holds, hperm, hiff.mpr (hapart.imp fun h hless => ?_)⟩
  rw [relational_less_integers, Except.ok.injEq, Value.bool.injEq, decide_eq_true_eq] at hless
  exact Integer.toFloat_lt_iff.mpr (h hless)

-- Two integers with the same double stay as they stand, the greater one first.
theorem neighbours_stay_in_descending_order :
    ((World.ofIntegers [9007199254740993, 9007199254740992]).heap.list 0).toList =
      [9007199254740993, 9007199254740992].map .int ∧
    Eval.builtin (evaluators 0) globals [.list 0] .sort
        (World.ofIntegers [9007199254740993, 9007199254740992]) =
      .ok .void (World.ofIntegers [9007199254740993, 9007199254740992]) ∧
    (World.ofIntegers [9007199254740993, 9007199254740992]).heap.relational .less
      (.int 9007199254740992) (.int 9007199254740993) = .ok (.bool true) := by
  have hsame : Integer.inOrder [9007199254740993, 9007199254740992] =
      [9007199254740993, 9007199254740992] := by
    have hsorted : [9007199254740993, 9007199254740992].Pairwise fun x y : Int64 =>
        ¬ Double.nearestInt y.toInt < Double.nearestInt x.toInt := by decide +kernel
    refine Sorting.sort_of_pairwise (hsorted.imp fun h => ?_)
    rw [decide_eq_false_iff_not, Integer.toFloat_lt_iff]
    exact h
  have hrun := Builtin.sorted_integers [9007199254740993, 9007199254740992]
  rw [hsame] at hrun
  refine ⟨rfl, builtin_sort_of_sorted (evaluators 0) globals _ hrun, ?_⟩
  rw [relational_less_integers]
  rfl

end Parlance
