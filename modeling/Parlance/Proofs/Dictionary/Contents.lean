import Parlance.Proofs.Heap.Display
import Parlance.Proofs.Heap.Equality

namespace Parlance

namespace Table

variable {α β γ : Type}

-- The value that is stored last under a key.
def last? (stores : List (String × α)) (key : String) : Option α :=
  stores.reverse.lookup key

@[simp]
theorem last?_nil (key : String) : last? ([] : List (String × α)) key = none := rfl

theorem last?_cons (k : String) (v : α) (stores : List (String × α)) (key : String) :
    last? ((k, v) :: stores) key =
      (last? stores key).or (if key = k then some v else none) := by
  rw [last?, List.reverse_cons, List.lookup_append, lookup_cons_eq]
  rfl

theorem get?_foldl_insert (stores : List (String × α)) (t : Table α) (key : String) :
    (stores.foldl (fun t e => t.insert e.1 e.2) t).get? key =
      (last? stores key).or (t.get? key) := by
  induction stores generalizing t with
  | nil => rfl
  | cons e stores ih =>
    obtain ⟨k, v⟩ := e
    rw [List.foldl_cons, ih, get?_insert, last?_cons, Option.or_assoc]
    split <;> rfl

-- A table holds what was stored last.
theorem get?_ofList (stores : List (String × α)) (key : String) :
    (ofList stores).get? key = last? stores key := by
  rw [ofList, get?_foldl_insert, get?_empty, Option.or_none]

theorem ofList_concat (stores : List (String × α)) (k : String) (v : α) :
    ofList (stores ++ [(k, v)]) = (ofList stores).insert k v := by
  rw [ofList, List.foldl_append]
  rfl

theorem mem_map_entries {t : Table α} {f : α → γ} {e : String × γ} :
    e ∈ t.entries.map (fun e => (e.1, f e.2)) ↔ (t.get? e.1).map f = some e.2 := by
  obtain ⟨k, c⟩ := e
  rw [List.mem_map, Option.map_eq_some_iff]
  constructor
  · rintro ⟨⟨_, v⟩, hmem, ⟨⟩⟩
    exact ⟨v, get?_eq_some_iff.mpr hmem, rfl⟩
  · rintro ⟨v, hv, rfl⟩
    exact ⟨(k, v), get?_eq_some_iff.mp hv, rfl⟩

theorem map_entries_sorted (t : Table α) (f : α → γ) :
    (t.entries.map fun e => (e.1, f e.2)).Pairwise fun a b => a.1 < b.1 :=
  List.pairwise_map.mpr t.sorted

-- The entries of a table depend on nothing but the values under its keys.
theorem map_entries_eq {t : Table α} {u : Table β} {f : α → γ} {g : β → γ}
    (h : ∀ k, (t.get? k).map f = (u.get? k).map g) :
    (t.entries.map fun e => (e.1, f e.2)) = u.entries.map fun e => (e.1, g e.2) := by
  have hnodup : ∀ {es : List (String × γ)}, (es.Pairwise fun a b => a.1 < b.1) → es.Nodup :=
    fun hs => hs.imp fun hlt heq => Std.ne_of_lt hlt (congrArg Prod.fst heq)
  have ht := t.map_entries_sorted f
  have hu := u.map_entries_sorted g
  have hperm : (t.entries.map fun e => (e.1, f e.2)).Perm
      (u.entries.map fun e => (e.1, g e.2)) := by
    rw [List.perm_ext_iff_of_nodup (hnodup ht) (hnodup hu)]
    intro e
    rw [mem_map_entries, mem_map_entries, h]
  refine hperm.eq_of_pairwise ?_ ht hu
  intro a b _ _ hab hba
  exact absurd (String.lt_trans hab hba) (String.lt_irrefl a.1)

end Table

namespace Heap

-- A dictionary that is what some stores have made of it, one after another.
structure Holds (h : Heap) (ref : Nat) (stores : List (String × Value)) : Prop where
  placed : ref < h.dicts.size
  contents : h.dict ref = Table.ofList stores

variable {h h' : Heap} {a b : Nat} {as bs : List (String × Value)}

theorem Holds.congr (ha : h.Holds a as) (heq : h'.dicts[a]? = h.dicts[a]?) :
    h'.Holds a as where
  placed := by
    have hsome := Array.getElem?_eq_getElem ha.placed
    rw [← heq] at hsome
    exact (Array.getElem?_eq_some_iff.mp hsome).1
  contents := by
    rw [← ha.contents, dict, dict, Array.getD_eq_getD_getElem?, Array.getD_eq_getD_getElem?, heq]

theorem Holds.get? (ha : h.Holds a as) (k : String) : (h.dict a).get? k = Table.last? as k := by
  rw [ha.contents, Table.get?_ofList]

theorem keys_eq_of_stores (ha : h.Holds a as) (hb : h'.Holds b bs)
    (hlast : ∀ k, (Table.last? as k).isSome = (Table.last? bs k).isSome) :
    (h.dict a).keys = (h'.dict b).keys := by
  refine Table.keys_eq_of_contains fun k => ?_
  rw [Table.contains, Table.contains, ha.get?, hb.get?, hlast]

-- Stores that leave the same values leave dictionaries that are written out the same.
theorem tree_eq_of_stores (ha : h.Holds a as) (hb : h'.Holds b bs)
    (hlast : ∀ n k, (Table.last? as k).map (h.tree n) = (Table.last? bs k).map (h'.tree n))
    (n : Nat) : h.tree n (.dict a) = h'.tree n (.dict b) := by
  cases n with
  | zero => rfl
  | succ n =>
    rw [tree, tree]
    refine congrArg Tree.dict (Table.map_entries_eq fun k => ?_)
    rw [ha.get?, hb.get?, hlast]

-- Stores that leave equal values under the same keys leave dictionaries that no comparison finds
-- to be different.
theorem equal_of_stores (ha : h.Holds a as) (hb : h.Holds b bs)
    (hkeys : ∀ k, (Table.last? as k).isSome = (Table.last? bs k).isSome)
    (hvalues : ∀ k x y, Table.last? as k = some x → Table.last? bs k = some y →
      h.equal x y = .ok true) {r : Bool} (hr : h.equal (.dict a) (.dict b) = .ok r) :
    r = true := by
  have halike : h.Alike (fun x y => h.equal x y = .ok true) (.dict a) (.dict b) := by
    refine ⟨fun k => ?_, fun k x y hx hy => ?_⟩
    · rw [Table.contains, Table.contains, ha.get?, hb.get?, hkeys]
    · rw [ha.get?] at hx
      rw [hb.get?] at hy
      exact hvalues k x y hx hy
  cases r with
  | true => rfl
  | false =>
    have hcompared : Compared h compareDepth (.dict a) (.dict b) (.ok false) :=
      hr ▸ compared h compareDepth (.dict a) (.dict b)
    generalize hdepth : compareDepth = depth at hcompared
    cases hcompared with
    | differs hdiffers => exact absurd halike (hdiffers _)
    | part s hx hy hxy =>
      -- The parts are equal when they are compared on their own, to one more level.
      have hequal := halike.child hx hy
      rw [equal, hdepth, equalTo_succ hxy] at hequal
      cases hequal

end Heap

end Parlance
