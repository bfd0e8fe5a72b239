import Parlance.Eval.Stmt
import Parlance.Host.Local
import Parlance.Proofs.Heap.Path
import Parlance.Proofs.Heap.Sequence
import Parlance.Proofs.Ordinary

namespace Parlance

theorem bind_congr_ok {ε α β : Type} {x : Except ε α} {f g : α → Except ε β}
    (h : ∀ a, x = .ok a → f a = g a) : x >>= f = x >>= g := by
  cases x with
  | error e => rfl
  | ok a => exact h a rfl

namespace Heap

-- The place of a collection that an index means: a position, counted from the start or from the
-- end, or a key.
def Means (h : Heap) (c i : Value) : Selector → Prop
  | .position p => ∃ ref n, c = .list ref ∧ i.asInt "list index" = .ok n ∧
      p < (h.list ref).size ∧ (n.toInt = p ∨ n.toInt = (p : Int) - (h.list ref).size)
  | .key k => (∃ ref, c = .dict ref) ∧ i = .str k

-- A heap that differs from another one by the value at one place, and in nothing else.
structure StoredAt (h : Heap) (c : Value) (s : Selector) (x : Value) (g : Heap) : Prop where
  stores : g.child? c s = some x
  keeps : ∀ s', s' ≠ s → g.child? c s' = h.child? c s'
  lengths : ∀ ref, (g.list ref).size = (h.list ref).size
  lists : ∀ ref, c ≠ .list ref → g.list ref = h.list ref
  dicts : ∀ ref, c ≠ .dict ref → g.dict ref = h.dict ref
  count : g.lists.size = h.lists.size ∧ g.dicts.size = h.dicts.size
  channels : g.clients = h.clients ∧ g.servers = h.servers ∧ g.connections = h.connections

theorem position_eq_ok_iff {what : String} {n : Int64} {length p : Nat}
    (hfits : Integer.InRange length) :
    position what n length = .ok p ↔
      p < length ∧ (n.toInt = p ∨ n.toInt = (p : Int) - length) := by
  rw [← resolveIndex?_eq_some_iff hfits, position]
  cases resolveIndex? n length <;> simp [refuse]

theorem list_put (h : Heap) (x : Value) (ref p r : Nat) :
    (h.put x (.item ref p)).list r =
      if r = ref then (h.list r).setIfInBounds p x else h.list r := by
  simp only [list, put, Array.getD_eq_getD_getElem?, Array.getElem?_modify]
  by_cases hr : ref = r
  · subst hr
    cases h.lists[ref]? <;> simp
  · simp [hr, Ne.symm hr]

theorem dict_put (h : Heap) (x : Value) {ref : Nat} (href : ref < h.dicts.size) (k : String)
    (r : Nat) :
    (h.put x (.entry ref k)).dict r = if r = ref then (h.dict r).insert k x else h.dict r := by
  simp only [dict, put, Array.getD_eq_getD_getElem?, Array.getElem?_modify]
  by_cases hr : ref = r
  · subst hr
    simp [href]
  · simp [hr, Ne.symm hr]

section

variable {h g : Heap} {c d i j x : Value} {s : Selector}

theorem storedAt_item {ref p : Nat} (hp : p < (h.list ref).size) (x : Value) :
    h.StoredAt (.list ref) (.position p) x (h.put x (.item ref p)) where
  stores := by
    rw [child?, list_put, if_pos rfl, Array.getElem?_setIfInBounds_self_of_lt hp]
  keeps s' hne := by
    cases s' with
    | key k => rfl
    | position q =>
      have hq : p ≠ q := fun hpq => hne (congrArg Selector.position hpq.symm)
      rw [child?, child?, list_put, if_pos rfl, Array.getElem?_setIfInBounds_ne hq]
  lengths r := by
    rw [list_put]
    split
    · rw [Array.size_setIfInBounds]
    · rfl
  lists r hne := by
    have hr : r ≠ ref := fun hr => hne (congrArg Value.list hr.symm)
    rw [list_put, if_neg hr]
  dicts _ _ := rfl
  count := ⟨Array.size_modify, rfl⟩
  channels := ⟨rfl, rfl, rfl⟩

theorem storedAt_entry {ref : Nat} (href : ref < h.dicts.size) (k : String) (x : Value) :
    h.StoredAt (.dict ref) (.key k) x (h.put x (.entry ref k)) where
  stores := by
    rw [child?, dict_put h x href, if_pos rfl, Table.get?_insert_self]
  keeps s' hne := by
    cases s' with
    | position q => rfl
    | key k' =>
      have hk : k' ≠ k := fun hk => hne (congrArg Selector.key hk)
      rw [child?, child?, dict_put h x href, if_pos rfl, Table.get?_insert_of_ne _ hk]
  lengths _ := rfl
  lists _ _ := rfl
  dicts r hne := by
    have hr : r ≠ ref := fun hr => hne (congrArg Value.dict hr.symm)
    rw [dict_put h x href, if_neg hr]
  count := ⟨rfl, Array.size_modify⟩
  channels := ⟨rfl, rfl, rfl⟩

-- The lengths of lists that integers of 64 bits count.
def Counted (h : Heap) (c : Value) : Prop :=
  ∀ ref, c = .list ref → Integer.InRange (h.list ref).size

theorem index_list (h : Heap) (ref : Nat) (i : Value) :
    h.index (.list ref) i =
      i.asInt "list index" >>= fun n => position "list index" n (h.list ref).size >>= fun p =>
        .ok ((h.list ref).getD p .void) := rfl

theorem index_dict (h : Heap) (ref : Nat) (i : Value) :
    h.index (.dict ref) i =
      i.asText "dict key" >>= fun k =>
        ((h.dict ref).get? k).elim (refuse (.missingKey k)) .ok := by
  cases i with
  | str k =>
    simp only [index, Value.asText, bind, Except.bind]
    cases (h.dict ref).get? k <;> rfl
  | _ => rfl

theorem slot_list (h : Heap) (ref : Nat) (i : Value) :
    h.slot (.list ref) i =
      i.asInt "list index" >>= fun n => position "list index" n (h.list ref).size >>= fun p =>
        .ok (.item ref p) := rfl

theorem asText_eq_ok_iff {what k : String} : i.asText what = .ok k ↔ i = .str k := by
  cases i <;> simp [Value.asText, refuse]

theorem means_position_iff {ref p : Nat} (hfits : Integer.InRange (h.list ref).size) :
    h.Means (.list ref) i (.position p) ↔
      ∃ n, i.asInt "list index" = .ok n ∧
        position "list index" n (h.list ref).size = .ok p := by
  simp only [position_eq_ok_iff hfits]
  constructor
  · rintro ⟨_, n, ⟨⟩, hn, hp⟩
    exact ⟨n, hn, hp⟩
  · rintro ⟨n, hn, hp⟩
    exact ⟨ref, n, rfl, hn, hp⟩

-- What an index reads is what stands at the place that it means.
theorem index_eq_ok_iff (hcount : h.Counted c) (hc : c.isCollection = true) {y : Value} :
    h.index c i = .ok y ↔ ∃ s, h.Means c i s ∧ h.child? c s = some y := by
  cases c with
  | list ref =>
    have hfits := hcount ref rfl
    rw [index_list]
    simp only [bind_eq_ok]
    constructor
    · rintro ⟨n, hn, p, hp, hy⟩
      have hlt := ((position_eq_ok_iff hfits).mp hp).1
      refine ⟨.position p, (means_position_iff hfits).mpr ⟨n, hn, hp⟩, ?_⟩
      cases hy
      simp [child?, hlt]
    · rintro ⟨_ | _, hs, hy⟩
      · obtain ⟨n, hn, hp⟩ := (means_position_iff hfits).mp hs
        refine ⟨n, hn, _, hp, ?_⟩
        rw [child?] at hy
        rw [Array.getD_eq_getD_getElem?, hy, Option.getD_some]
      · cases hy
  | dict ref =>
    rw [index_dict]
    simp only [bind_eq_ok, asText_eq_ok_iff]
    constructor
    · rintro ⟨k, rfl, hy⟩
      refine ⟨.key k, ⟨⟨ref, rfl⟩, rfl⟩, ?_⟩
      rw [child?]
      cases hget : (h.dict ref).get? k with
      | none =>
        rw [hget] at hy
        cases hy
      | some v =>
        rw [hget] at hy
        cases hy
        rfl
    · rintro ⟨_ | _, hs, hy⟩
      · cases hy
      · rw [child?] at hy
        exact ⟨_, hs.2, by rw [hy]; rfl⟩
  | _ => cases hc

-- An index that means a place is enough to store there.
theorem exists_slot (hcount : h.Counted c) (hin : h.Has c) (hs : h.Means c i s) (x : Value) :
    ∃ slot, h.slot c i = .ok slot ∧ h.StoredAt c s x (h.put x slot) := by
  cases s with
  | position p =>
    obtain ⟨ref, n, rfl, hn, hlt, hp⟩ := hs
    refine ⟨.item ref p, ?_, storedAt_item hlt x⟩
    rw [slot_list]
    simp only [bind_eq_ok]
    exact ⟨n, hn, p, (position_eq_ok_iff (hcount ref rfl)).mpr ⟨hlt, hp⟩, rfl⟩
  | key k =>
    obtain ⟨⟨ref, rfl⟩, rfl⟩ := hs
    exact ⟨.entry ref k, rfl, storedAt_entry hin k x⟩

-- Without such a place nothing is stored.
theorem slot_eq_error (hcount : h.Counted c) (hs : ∀ s, ¬ h.Means c i s) :
    ∃ e, h.slot c i = .error e := by
  cases hslot : h.slot c i with
  | error e => exact ⟨e, rfl⟩
  | ok slot =>
    cases c with
    | list ref =>
      rw [slot_list] at hslot
      simp only [bind_eq_ok] at hslot
      obtain ⟨n, hn, p, hp, -⟩ := hslot
      exact absurd ((means_position_iff (hcount ref rfl)).mpr ⟨n, hn, hp⟩) (hs _)
    | dict ref =>
      obtain ⟨k, hk, -⟩ := bind_eq_ok.mp hslot
      exact absurd ⟨⟨ref, rfl⟩, asText_eq_ok_iff.mp hk⟩ (hs (.key k))
    | _ => cases hslot

namespace StoredAt

theorem isCollection (hg : h.StoredAt c s x g) : c.isCollection = true :=
  isCollection_of_child? hg.stores

-- A store moves no place: every index means what it meant before.
theorem means_iff (hg : h.StoredAt c s x g) (d j : Value) (s' : Selector) :
    g.Means d j s' ↔ h.Means d j s' := by
  cases s' with
  | position p => simp only [Means, hg.lengths]
  | key k => exact Iff.rfl

theorem counted (hg : h.StoredAt c s x g) (hcount : h.Counted c) : g.Counted c := by
  intro ref hc
  rw [hg.lengths]
  exact hcount ref hc

theorem index_of_means (hg : h.StoredAt c s x g) (hcount : h.Counted c) (hj : h.Means c j s) :
    g.index c j = .ok x :=
  (index_eq_ok_iff (hg.counted hcount) hg.isCollection).mpr
    ⟨s, (hg.means_iff c j s).mpr hj, hg.stores⟩

theorem index_of_ne (hg : h.StoredAt c s x g) (hd : d ≠ c) (j : Value) :
    g.index d j = h.index d j := by
  cases d with
  | list ref => simp only [index, hg.lists ref (Ne.symm hd)]
  | dict ref => simp only [index, hg.dicts ref (Ne.symm hd)]
  | _ => rfl

theorem index_of_not_means (hg : h.StoredAt c s x g) (hcount : h.Counted c)
    (hj : ¬ h.Means c j s) : g.index c j = h.index c j := by
  cases c with
  | list ref =>
    rw [index_list, index_list, hg.lengths]
    refine bind_congr_ok fun n hn => bind_congr_ok fun p hp => ?_
    have hmeans := (means_position_iff (hcount ref rfl)).mpr ⟨n, hn, hp⟩
    have hkeep := hg.keeps (.position p) fun heq => hj (heq ▸ hmeans)
    simp only [child?] at hkeep
    rw [Array.getD_eq_getD_getElem?, hkeep, Array.getD_eq_getD_getElem?]
  | dict ref =>
    rw [index_dict, index_dict]
    refine bind_congr_ok fun k hk => ?_
    have hmeans : h.Means (.dict ref) j (.key k) := ⟨⟨ref, rfl⟩, asText_eq_ok_iff.mp hk⟩
    have hkeep := hg.keeps (.key k) fun heq => hj (heq ▸ hmeans)
    simp only [child?] at hkeep
    rw [hkeep]
  | _ => rfl

end StoredAt

end

end Heap

open Heap

section

variable {ev : Evaluators} {env : Nat} {w u t : World} {container index : Expr} {c i : Value}
  (hc : ev.expr env container w = .ok c u) (hi : ev.expr env index u = .ok i t)

include hc hi

theorem assign_of_slot {slot : Slot} (hslot : t.heap.slot c i = .ok slot) (x : Value) :
    Eval.assign ev env x (.access container index) w =
      .ok () { t with heap := t.heap.put x slot } := by
  simp only [Eval.assign, Exec.bind_apply, hc, hi, Exec.atLine, Exec.reading, hslot,
    Exec.modify_apply]

theorem assign_of_slot_error {e : Stop} (hslot : t.heap.slot c i = .error e) (x : Value) :
    ∃ e', Eval.assign ev env x (.access container index) w = .error e' t := by
  simp only [Eval.assign, Exec.bind_apply, hc, hi, Exec.atLine, Exec.reading, hslot]
  cases e with
  | _ => exact ⟨_, rfl⟩

end

-- An index that a value can be stored at: one that reads something in a list, or a text in a
-- dictionary.
def Heap.Storable (h : Heap) (c i : Value) : Prop :=
  c.ty = .list ∧ (∃ y, h.index c i = .ok y) ∨ c.ty = .dict ∧ i.ty = .string

theorem Heap.storable_iff {h : Heap} {c i : Value} (hcount : h.Counted c) :
    h.Storable c i ↔ ∃ s, h.Means c i s := by
  constructor
  · rintro (⟨hc, y, hy⟩ | ⟨hc, hi⟩)
    · cases c with
      | list ref =>
        obtain ⟨s, hs, -⟩ := (index_eq_ok_iff hcount rfl).mp hy
        exact ⟨s, hs⟩
      | _ => cases hc
    · cases c with
      | dict ref =>
        cases i with
        | str k => exact ⟨.key k, ⟨ref, rfl⟩, rfl⟩
        | _ => cases hi
      | _ => cases hc
  · rintro ⟨p | k, hs⟩
    · have hmeans := hs
      obtain ⟨ref, n, rfl, -, hlt, -⟩ := hs
      have hchild : h.child? (.list ref) (.position p) = some (h.list ref)[p] :=
        Array.getElem?_eq_getElem hlt
      exact .inl ⟨rfl, _, (index_eq_ok_iff hcount rfl).mpr ⟨.position p, hmeans, hchild⟩⟩
    · obtain ⟨⟨ref, rfl⟩, rfl⟩ := hs
      exact .inr ⟨rfl, rfl⟩

-- Storing at an index changes the value of one place and nothing else, or fails and changes
-- nothing. Aliases of a collection are the same value, so what has been stored is read through
-- all of them, and by every index that means its place.
theorem index_assignment_is_exact (ev : Evaluators) (env : Nat) {w u t : World}
    {container index : Expr} {c i : Value} (x : Value)
    (hc : ev.expr env container w = .ok c u) (hi : ev.expr env index u = .ok i t)
    (hin : t.heap.Has c) (hcount : t.heap.Counted c) :
    (t.heap.Storable c i → ∃ s g, t.heap.Means c i s ∧
      Eval.assign ev env x (.access container index) w = .ok () { t with heap := g } ∧
      t.heap.StoredAt c s x g ∧ g.index c i = .ok x ∧
      ∀ d j, (d = c ∧ t.heap.Means c j s → g.index d j = .ok x) ∧
        (¬ (d = c ∧ t.heap.Means c j s) → g.index d j = t.heap.index d j)) ∧
    (¬ t.heap.Storable c i →
      ∃ e, Eval.assign ev env x (.access container index) w = .error e t) := by
  rw [storable_iff hcount]
  constructor
  · rintro ⟨s, hs⟩
    obtain ⟨slot, hslot, hg⟩ := exists_slot hcount hin hs x
    refine ⟨s, _, hs, assign_of_slot hc hi hslot x, hg, hg.index_of_means hcount hs, ?_⟩
    intro d j
    constructor
    · rintro ⟨rfl, hj⟩
      exact hg.index_of_means hcount hj
    · intro hne
      by_cases hd : d = c
      · subst hd
        exact hg.index_of_not_means hcount fun hj => hne ⟨rfl, hj⟩
      · exact hg.index_of_ne hd j
  · intro hnone
    obtain ⟨e, he⟩ := slot_eq_error hcount fun s hs => hnone ⟨s, hs⟩
    exact assign_of_slot_error hc hi he x

-- A new list of two numbers, the index of the last one, and a world without that list and with
-- it.
def numberPair : Expr :=
  .array ⟨.leftBracket, "[", 1⟩ [.constant ⟨.number, "1", 1⟩, .constant ⟨.number, "2", 1⟩]

def lastIndex : Expr :=
  .unary ⟨.minus, "-", 1⟩ (.constant ⟨.number, "1", 1⟩)

def unpaired : World :=
  World.fresh (.captured "") ⟨true, .loopback⟩

def paired : World :=
  { unpaired with heap := (unpaired.heap.place (.list #[.int 1, .int 2])).2 }

theorem eval_numberPair :
    (evaluators 2).expr globals numberPair unpaired = .ok (.list 0) paired := by
  have hone : Eval.constant ⟨.number, "1", 1⟩ = .ok (.int 1) := rfl
  have htwo : Eval.constant ⟨.number, "2", 1⟩ = .ok (.int 2) := rfl
  simp [evaluators_succ, numberPair, Eval.expr, Eval.array, Exec.atLine, Exec.require,
    Exec.reading, Exec.place, Exec.bind_apply, hone, htwo]
  rfl

theorem eval_lastIndex :
    (evaluators 2).expr globals lastIndex paired = .ok (.int (-1)) paired := by
  have hone : Eval.constant ⟨.number, "1", 1⟩ = .ok (.int 1) := rfl
  simp [evaluators_succ, lastIndex, Eval.expr, Eval.unary, Exec.atLine, Exec.require,
    Exec.reading, Exec.bind_apply, hone]
  rfl

-- A list is stored as its own last item: it is then read there, and the other item stays.
theorem numberPair_is_stored_in_itself :
    paired.heap.Has (.list 0) ∧ paired.heap.Counted (.list 0) ∧
      paired.heap.Storable (.list 0) (.int (-1)) ∧
      ∃ g, Eval.assign (evaluators 2) globals (.list 0) (.access numberPair lastIndex) unpaired =
          .ok () { paired with heap := g } ∧
        g.index (.list 0) (.int (-1)) = .ok (.list 0) ∧
        g.index (.list 0) (.int 1) = .ok (.list 0) ∧
        g.index (.list 0) (.int 0) = .ok (.int 1) := by
  have hlist : paired.heap.list 0 = #[.int 1, .int 2] := rfl
  have hin : paired.heap.Has (.list 0) := has_place_list unpaired.heap #[.int 1, .int 2]
  have hcount : paired.heap.Counted (.list 0) := by
    rintro ref ⟨⟩
    rw [hlist]
    decide
  have hstorable : paired.heap.Storable (.list 0) (.int (-1)) := .inl ⟨rfl, .int 2, rfl⟩
  refine ⟨hin, hcount, hstorable, ?_⟩
  obtain ⟨s, g, hs, hrun, hg, hlast, hread⟩ := (index_assignment_is_exact (evaluators 2) globals
    (.list 0) eval_numberPair eval_lastIndex hin hcount).1 hstorable
  -- The index means the place of the second item.
  have hmeans : ∀ (n : Int64) (p : Nat), paired.heap.Means (.list 0) (.int n) (.position p) ↔
      p < 2 ∧ (n.toInt = p ∨ n.toInt = (p : Int) - 2) := by
    intro n p
    constructor
    · rintro ⟨_, _, ⟨⟩, ⟨⟩, hp⟩
      rwa [hlist] at hp
    · intro hp
      refine ⟨_, n, rfl, rfl, ?_⟩
      rwa [hlist]
  have hone : s = .position 1 := by
    cases s with
    | key k => cases hs.2
    | position p =>
      have hp := (hmeans (-1) p).mp hs
      have hminus : (-1 : Int64).toInt = -1 := rfl
      congr 1
      omega
  subst hone
  refine ⟨g, hrun, hlast, ?_, ?_⟩
  · exact (hread _ (.int 1)).1 ⟨rfl, (hmeans 1 1).mpr (by decide)⟩
  · rw [(hread _ (.int 0)).2 fun h => absurd ((hmeans 0 1).mp h.2) (by decide)]
    rfl

end Parlance
