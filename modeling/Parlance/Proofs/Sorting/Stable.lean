import Parlance.Sorting

namespace Parlance.Sorting

variable {α β : Type} {less : α → α → Bool} {xs : List α} {a b : α}

-- A comparison that puts all values in an order in which some of them may be tied.
structure Ordered (less : α → α → Bool) : Prop where
  asymm : ∀ {a b}, less a b = true → less b a = false
  trans : ∀ {a b c}, less b a = false → less c b = false → less c a = false

-- Whether neither of two values is less than the other.
def tied (less : α → α → Bool) (a b : α) : Bool :=
  !less a b && !less b a

theorem sort_map {less' : β → β → Bool} (f : α → β) (h : ∀ a b, less' (f a) (f b) = less a b)
    (xs : List α) : sort less' (xs.map f) = (sort less xs).map f :=
  (List.map_mergeSort fun a _ b _ => by rw [h]).symm

-- A list in order is left as it is, even by a comparison that orders other values badly.
theorem sort_of_pairwise (h : xs.Pairwise fun a b => less b a = false) : sort less xs = xs :=
  List.mergeSort_of_pairwise (h.imp fun hab => by rw [hab]; rfl)

namespace Ordered

theorem le_trans (h : Ordered less) (a b c : α) (hab : (!less b a) = true)
    (hbc : (!less c b) = true) : (!less c a) = true := by
  rw [Bool.not_eq_true'] at hab hbc ⊢
  exact h.trans hab hbc

theorem le_total (h : Ordered less) (a b : α) : (!less b a || !less a b) = true := by
  cases hab : less a b with
  | false => rw [Bool.not_false, Bool.or_true]
  | true => rw [h.asymm hab, Bool.not_false, Bool.true_or]

theorem sort_pairwise (h : Ordered less) (xs : List α) :
    (sort less xs).Pairwise fun a b => less b a = false :=
  (List.pairwise_mergeSort h.le_trans h.le_total xs).imp fun hab => by
    rwa [Bool.not_eq_true'] at hab

theorem sort_sort (h : Ordered less) (xs : List α) : sort less (sort less xs) = sort less xs :=
  sort_of_pairwise (h.sort_pairwise xs)

-- The values that are tied with one of them stand in the sorted list as they stood before.
theorem filter_tied_sort (h : Ordered less) (a : α) (xs : List α) :
    (sort less xs).filter (tied less a) = xs.filter (tied less a) := by
  have hties : (xs.filter (tied less a)).Pairwise fun b c => (!less c b) = true := by
    refine List.pairwise_of_forall_mem_list fun b hb c hc => ?_
    have hb' := (List.mem_filter.mp hb).2
    have hc' := (List.mem_filter.mp hc).2
    simp only [tied, Bool.and_eq_true, Bool.not_eq_true'] at hb' hc'
    rw [Bool.not_eq_true']
    exact h.trans hb'.1 hc'.2
  have hsub := List.sublist_mergeSort h.le_trans h.le_total hties List.filter_sublist
  have hkept := hsub.filter (tied less a)
  simp only [List.filter_filter, Bool.and_self] at hkept
  exact (hkept.eq_of_length ((sort_perm less xs).filter _).length_eq.symm).symm

-- Sorting is stable: of two tied values, the one that stood first stands first.
theorem pair_sublist_sort_iff (h : Ordered less) (htied : tied less a b = true) :
    [a, b].Sublist (sort less xs) ↔ [a, b].Sublist xs := by
  have hself : tied less a a = true := by
    cases haa : less a a with
    | false => simp [tied, haa]
    | true => exact absurd (h.asymm haa) (by simp [haa])
  have hkeep : [a, b].filter (tied less a) = [a, b] := by simp [hself, htied]
  have hiff : ∀ ys : List α, [a, b].Sublist ys ↔ [a, b].Sublist (ys.filter (tied less a)) := by
    intro ys
    constructor
    · intro hsub
      have := hsub.filter (tied less a)
      rwa [hkeep] at this
    · exact fun hsub => hsub.trans List.filter_sublist
  rw [hiff, h.filter_tied_sort, ← hiff]

end Ordered

end Parlance.Sorting
