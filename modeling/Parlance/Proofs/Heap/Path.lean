import Parlance.Heap

namespace Parlance

namespace Table

variable {α : Type} {t u : Table α} {key : String} {value : α}

theorem lookup_eq_some_iff {entries : List (String × α)}
    (h : entries.Pairwise fun a b => a.1 < b.1) :
    entries.lookup key = some value ↔ (key, value) ∈ entries := by
  induction entries with
  | nil => simp
  | cons head rest ih =>
    obtain ⟨k, v⟩ := head
    obtain ⟨hhead, hrest⟩ := List.pairwise_cons.mp h
    rw [lookup_cons_eq, List.mem_cons, Prod.mk.injEq]
    by_cases hkey : key = k
    · subst hkey
      have habsent : (key, value) ∉ rest := fun hmem => String.lt_irrefl key (hhead _ hmem)
      simp [habsent, eq_comm]
    · simp [hkey, ih hrest]

theorem lookup_map_snd {β : Type} (f : α → β) (entries : List (String × α)) (key : String) :
    (entries.map fun e => (e.1, f e.2)).lookup key = (entries.lookup key).map f := by
  induction entries with
  | nil => rfl
  | cons head rest ih =>
    obtain ⟨k, v⟩ := head
    rw [List.map_cons, lookup_cons_eq, lookup_cons_eq, ih]
    split <;> rfl

-- A table holds what its entries say.
theorem get?_eq_some_iff : t.get? key = some value ↔ (key, value) ∈ t.entries :=
  lookup_eq_some_iff t.sorted

theorem contains_iff_mem_keys : t.contains key = true ↔ key ∈ t.keys := by
  rw [contains, Option.isSome_iff_exists, keys, List.mem_map]
  constructor
  · rintro ⟨v, hv⟩
    exact ⟨(key, v), get?_eq_some_iff.mp hv, rfl⟩
  · rintro ⟨⟨_, v⟩, hmem, rfl⟩
    exact ⟨v, get?_eq_some_iff.mpr hmem⟩

theorem keys_sorted (t : Table α) : t.keys.Pairwise (· < ·) :=
  List.pairwise_map.mpr t.sorted

theorem keys_nodup (t : Table α) : t.keys.Nodup :=
  t.keys_sorted.imp fun hlt => Std.ne_of_lt hlt

-- Tables with the same keys have them in the same order.
theorem keys_eq_of_contains (h : ∀ k, t.contains k = u.contains k) : t.keys = u.keys := by
  have hperm : t.keys.Perm u.keys := by
    rw [List.perm_ext_iff_of_nodup t.keys_nodup u.keys_nodup]
    intro k
    rw [← contains_iff_mem_keys, ← contains_iff_mem_keys, h k]
  refine hperm.eq_of_pairwise ?_ t.keys_sorted u.keys_sorted
  intro a b _ _ hab hba
  exact absurd (String.lt_trans hab hba) (String.lt_irrefl a)

end Table

def Value.isCollection : Value → Bool
  | .list _ => true
  | .dict _ => true
  | _ => false

-- A position of a list, or a key of a dictionary.
inductive Selector where
  | position (i : Nat)
  | key (k : String)

namespace Heap

-- A value that a collection holds.
def child? (h : Heap) (v : Value) (s : Selector) : Option Value :=
  match v, s with
  | .list ref, .position i => (h.list ref)[i]?
  | .dict ref, .key k => (h.dict ref).get? k
  | _, _ => none

-- The value at the end of a path. Paths can go around in circles.
def follow? (h : Heap) : List Selector → Value → Option Value
  | [], v => some v
  | s :: path, v => (h.child? v s).bind (h.follow? path)

def Reaches (h : Heap) (v x : Value) : Prop :=
  ∃ path, h.follow? path v = some x

-- Values whose collections are nested to a number of levels at most. A collection without
-- collections has one level.
def nestedWithin (h : Heap) : Nat → Value → Bool
  | n + 1, .list ref => (h.list ref).toList.all (h.nestedWithin n)
  | n + 1, .dict ref => (h.dict ref).entries.all fun e => h.nestedWithin n e.2
  | _, v => !v.isCollection

variable {h : Heap} {v x c : Value} {s : Selector} {path : List Selector}

theorem follow?_cons (hc : h.child? v s = some c) (path : List Selector) :
    h.follow? (s :: path) v = h.follow? path c := by
  rw [follow?, hc, Option.bind_some]

theorem child?_of_follow? (hx : h.follow? (s :: path) v = some x) :
    ∃ c, h.child? v s = some c ∧ h.follow? path c = some x :=
  Option.bind_eq_some_iff.mp hx

theorem Reaches.child (hc : h.child? v s = some c) (hx : h.Reaches c x) : h.Reaches v x := by
  obtain ⟨path, hpath⟩ := hx
  exact ⟨s :: path, (follow?_cons hc path).trans hpath⟩

theorem isCollection_of_child? (hc : h.child? v s = some c) : v.isCollection = true := by
  cases v with
  | list ref => rfl
  | dict ref => rfl
  | _ => cases s <;> cases hc

theorem child?_position {i : Nat} (hc : h.child? v (.position i) = some c) :
    ∃ ref, v = .list ref ∧ (h.list ref)[i]? = some c := by
  cases v with
  | list ref => exact ⟨ref, rfl, hc⟩
  | _ => cases hc

theorem child?_key {k : String} (hc : h.child? v (.key k) = some c) :
    ∃ ref, v = .dict ref ∧ (h.dict ref).get? k = some c := by
  cases v with
  | dict ref => exact ⟨ref, rfl, hc⟩
  | _ => cases hc

-- The levels of a collection are those of what it holds, and one more.
theorem nestedWithin_succ_iff {n : Nat} :
    h.nestedWithin (n + 1) v = true ↔
      ∀ s c, h.child? v s = some c → h.nestedWithin n c = true := by
  cases v with
  | list ref =>
    rw [nestedWithin, List.all_eq_true]
    constructor
    · rintro hall (i | k) c hc
      · exact hall c (Array.mem_toList_iff.mpr (Array.mem_of_getElem? hc))
      · cases hc
    · intro hall c hc
      obtain ⟨i, hi⟩ := Array.mem_iff_getElem?.mp (Array.mem_toList_iff.mp hc)
      exact hall (.position i) c hi
  | dict ref =>
    rw [nestedWithin, List.all_eq_true]
    constructor
    · rintro hall (i | k) c hc
      · cases hc
      · exact hall (k, c) (Table.get?_eq_some_iff.mp hc)
    · intro hall e he
      exact hall (.key e.1) e.2 (Table.get?_eq_some_iff.mpr he)
  | _ => exact ⟨fun _ s c hc => absurd (isCollection_of_child? hc) Bool.false_ne_true, fun _ => rfl⟩

theorem nestedWithin_zero : h.nestedWithin 0 v = !v.isCollection := by
  cases v <;> rfl

-- Collections are nested to a number of levels exactly if no path of as many steps leads to one.
theorem nestedWithin_iff {n : Nat} :
    h.nestedWithin n v = true ↔
      ∀ path x, h.follow? path v = some x → x.isCollection = true → path.length < n := by
  induction n generalizing v with
  | zero =>
    rw [nestedWithin_zero, Bool.not_eq_true']
    constructor
    · intro hv path x hx hcollection
      cases path with
      | nil =>
        cases hx
        rw [hv] at hcollection
        cases hcollection
      | cons s path =>
        obtain ⟨c, hc, -⟩ := child?_of_follow? hx
        rw [isCollection_of_child? hc] at hv
        cases hv
    · intro hall
      rw [Bool.eq_false_iff]
      exact fun hv => absurd (hall [] v rfl hv) (Nat.not_lt_zero _)
  | succ n ih =>
    rw [nestedWithin_succ_iff]
    constructor
    · intro hchildren path x hx hcollection
      cases path with
      | nil => exact Nat.succ_pos n
      | cons s path =>
        obtain ⟨c, hc, hx⟩ := child?_of_follow? hx
        exact Nat.succ_lt_succ (ih.mp (hchildren s c hc) path x hx hcollection)
    · intro hall s c hc
      refine ih.mpr fun path x hx hcollection => ?_
      have hfollow := (follow?_cons hc path).trans hx
      exact Nat.lt_of_succ_lt_succ (hall (s :: path) x hfollow hcollection)

end Heap

end Parlance
