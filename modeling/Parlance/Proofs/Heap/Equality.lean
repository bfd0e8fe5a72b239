import Parlance.Heap.Equality
import Parlance.Proofs.Heap.Path
import Parlance.Proofs.Ordinary

namespace Parlance.Heap

-- What two values have in common if their parts are related: scalars are equal, lists have the
-- same length and dictionaries the same keys.
def Alike (h : Heap) (R : Value → Value → Prop) : Value → Value → Prop
  | .list a, .list b =>
    (h.list a).size = (h.list b).size ∧
      ∀ (i : Nat) x y, (h.list a)[i]? = some x → (h.list b)[i]? = some y → R x y
  | .dict a, .dict b =>
    (∀ k, (h.dict a).contains k = (h.dict b).contains k) ∧
      ∀ k x y, (h.dict a).get? k = some x → (h.dict b).get? k = some y → R x y
  | a, b => scalarEqual a b = true

def IsBisimulation (h : Heap) (R : Value → Value → Prop) : Prop :=
  ∀ a b, R a b → h.Alike R a b

-- Values that no observation tells apart.
def Bisimilar (h : Heap) (a b : Value) : Prop :=
  ∃ R, h.IsBisimulation R ∧ R a b

section

variable {eq : Value → Value → Except Stop Bool} {xs ys : List (String × Value)}

theorem entriesEqual_cons (k l : String) (x y : Value) (xs ys : List (String × Value)) :
    entriesEqual eq ((k, x) :: xs) ((l, y) :: ys) =
      if k = l then
        eq x y >>= fun same => if same then entriesEqual eq xs ys else .ok false
      else .ok false := rfl

theorem eq_of_entriesEqual (h : entriesEqual eq xs ys = .ok true) {i : Nat} {e f : String × Value}
    (he : xs[i]? = some e) (hf : ys[i]? = some f) : e.1 = f.1 ∧ eq e.2 f.2 = .ok true := by
  induction xs generalizing ys i with
  | nil => cases he
  | cons e' xs ih =>
    cases ys with
    | nil => cases hf
    | cons f' ys =>
      obtain ⟨k, x⟩ := e'
      obtain ⟨l, y⟩ := f'
      rw [entriesEqual_cons] at h
      split at h
      · next hkey =>
        obtain ⟨same, hsame, hrest⟩ := bind_eq_ok.mp h
        cases same with
        | false => cases hrest
        | true =>
          cases i with
          | zero =>
            cases he
            cases hf
            exact ⟨hkey, hsame⟩
          | succ i => exact ih hrest he hf
      · cases h

theorem exists_of_entriesEqual {r : Except Stop Bool} (h : entriesEqual eq xs ys = r)
    (hr : r ≠ .ok true) :
    ∃ (i : Nat) (e f : String × Value), xs[i]? = some e ∧ ys[i]? = some f ∧
      (e.1 ≠ f.1 ∧ r = .ok false ∨ e.1 = f.1 ∧ eq e.2 f.2 = r) := by
  induction xs generalizing ys with
  | nil => exact absurd h.symm hr
  | cons e xs ih =>
    cases ys with
    | nil => exact absurd h.symm hr
    | cons f ys =>
      obtain ⟨k, x⟩ := e
      obtain ⟨l, y⟩ := f
      rw [entriesEqual_cons] at h
      split at h
      · next hkey =>
        cases hxy : eq x y with
        | error s =>
          rw [hxy] at h
          exact ⟨0, (k, x), (l, y), rfl, rfl, .inr ⟨hkey, hxy.trans h⟩⟩
        | ok same =>
          rw [hxy] at h
          cases same with
          | false => exact ⟨0, (k, x), (l, y), rfl, rfl, .inr ⟨hkey, hxy.trans h⟩⟩
          | true =>
            obtain ⟨i, e, f, he, hf, hcase⟩ := ih h
            exact ⟨i + 1, e, f, he, hf, hcase⟩
      · next hkey => exact ⟨0, (k, x), (l, y), rfl, rfl, .inl ⟨hkey, h.symm⟩⟩

-- Items are compared like entries that all have one key.
theorem itemsEqual_eq_entriesEqual (xs ys : List Value) :
    itemsEqual eq xs ys = entriesEqual eq (xs.map (("", ·))) (ys.map (("", ·))) := by
  induction xs generalizing ys with
  | nil => rfl
  | cons x xs ih =>
    cases ys with
    | nil => rfl
    | cons y ys =>
      simp only [List.map_cons, itemsEqual, entriesEqual, ih, if_true]

end

section

variable {eq : Value → Value → Except Stop Bool} {xs ys : List Value}

theorem eq_of_itemsEqual (h : itemsEqual eq xs ys = .ok true) {i : Nat} {x y : Value}
    (hx : xs[i]? = some x) (hy : ys[i]? = some y) : eq x y = .ok true := by
  rw [itemsEqual_eq_entriesEqual] at h
  exact (eq_of_entriesEqual h (i := i) (e := ("", x)) (f := ("", y)) (by simp [hx])
    (by simp [hy])).2

theorem exists_of_itemsEqual {r : Except Stop Bool} (h : itemsEqual eq xs ys = r)
    (hr : r ≠ .ok true) :
    ∃ (i : Nat) (x y : Value), xs[i]? = some x ∧ ys[i]? = some y ∧ eq x y = r := by
  rw [itemsEqual_eq_entriesEqual] at h
  obtain ⟨i, e, f, he, hf, hcase⟩ := exists_of_entriesEqual h hr
  rw [List.getElem?_map, Option.map_eq_some_iff] at he hf
  obtain ⟨x, hx, rfl⟩ := he
  obtain ⟨y, hy, rfl⟩ := hf
  rcases hcase with ⟨hne, -⟩ | ⟨-, heq⟩
  · exact absurd rfl hne
  · exact ⟨i, x, y, hx, hy, heq⟩

end

section

variable {h : Heap} {R : Value → Value → Prop} {a b x y : Value} {depth : Nat}

theorem Alike.child (hab : h.Alike R a b) {s : Selector} (hx : h.child? a s = some x)
    (hy : h.child? b s = some y) : R x y := by
  cases s with
  | position i =>
    obtain ⟨ref, rfl, hx⟩ := child?_position hx
    obtain ⟨ref', rfl, hy⟩ := child?_position hy
    exact hab.2 i x y hx hy
  | key k =>
    obtain ⟨ref, rfl, hx⟩ := child?_key hx
    obtain ⟨ref', rfl, hy⟩ := child?_key hy
    exact hab.2 k x y hx hy

-- Values that are not both lists or both dictionaries have no parts to compare.
theorem alike_iff_scalarEqual (hlists : ∀ r s, a = .list r → b = .list s → False)
    (hdicts : ∀ r s, a = .dict r → b = .dict s → False) :
    h.Alike R a b ↔ scalarEqual a b = true := by
  rw [Alike]
  · exact hlists
  · exact hdicts

theorem Alike.imp {R' : Value → Value → Prop} (hab : h.Alike R a b)
    (hR : ∀ s x y, h.child? a s = some x → h.child? b s = some y → R x y → R' x y) :
    h.Alike R' a b := by
  unfold Alike at hab
  split at hab
  · exact ⟨hab.1, fun i x y hx hy => hR (.position i) x y hx hy (hab.2 i x y hx hy)⟩
  · exact ⟨hab.1, fun k x y hx hy => hR (.key k) x y hx hy (hab.2 k x y hx hy)⟩
  · next hlists hdicts => exact (alike_iff_scalarEqual hlists hdicts).mpr hab

theorem alike_self (ha : a.isCollection = true)
    (hR : ∀ s x, h.child? a s = some x → R x x) : h.Alike R a a := by
  cases a with
  | list ref =>
    refine ⟨rfl, fun i x y hx hy => ?_⟩
    rw [hx] at hy
    cases hy
    exact hR (.position i) x hx
  | dict ref =>
    refine ⟨fun _ => rfl, fun k x y hx hy => ?_⟩
    rw [hx] at hy
    cases hy
    exact hR (.key k) x hx
  | _ => cases ha

theorem keys_eq_of_entriesEqual {eq : Value → Value → Except Stop Bool} {t u : Table Value}
    (hsize : t.size = u.size) (heq : entriesEqual eq t.entries u.entries = .ok true) :
    t.keys = u.keys := by
  have hlength : t.keys.length = u.keys.length := by
    simpa [Table.keys, Table.size] using hsize
  refine List.ext_getElem hlength fun i hi hi' => ?_
  simp only [Table.keys, List.length_map] at hi hi'
  simp only [Table.keys, List.getElem_map]
  exact (eq_of_entriesEqual heq (List.getElem?_eq_getElem hi) (List.getElem?_eq_getElem hi')).1

theorem alike_of_entriesEqual {eq : Value → Value → Except Stop Bool} {t u : Table Value}
    (hsize : t.size = u.size) (heq : entriesEqual eq t.entries u.entries = .ok true) :
    (∀ k, t.contains k = u.contains k) ∧
      ∀ k x y, t.get? k = some x → u.get? k = some y → eq x y = .ok true := by
  have hkeys := keys_eq_of_entriesEqual hsize heq
  constructor
  · intro k
    rw [Bool.eq_iff_iff, Table.contains_iff_mem_keys, Table.contains_iff_mem_keys, hkeys]
  · intro k x y hx hy
    obtain ⟨i, hi, hget⟩ := List.getElem_of_mem (Table.get?_eq_some_iff.mp hx)
    have hi' : i < u.entries.length := by
      have hsame : t.entries.length = u.entries.length := hsize
      omega
    obtain ⟨hkey, hvalue⟩ := eq_of_entriesEqual heq (List.getElem?_eq_getElem hi)
      (List.getElem?_eq_getElem hi')
    rw [hget] at hkey hvalue
    -- The keys of a table are different, so that the entry at this place is the one for `k`.
    have hentry : u.get? k = some u.entries[i].2 := by
      rw [Table.get?_eq_some_iff]
      have hmem := List.getElem_mem hi'
      rwa [show u.entries[i] = (k, u.entries[i].2) from Prod.ext hkey.symm rfl] at hmem
    rw [hy] at hentry
    cases hentry
    exact hvalue

theorem not_alike_of_size {a b : Nat} (hsize : (h.dict a).size ≠ (h.dict b).size)
    (R : Value → Value → Prop) : ¬ h.Alike R (.dict a) (.dict b) := by
  intro halike
  have hkeys := Table.keys_eq_of_contains halike.1
  exact hsize (by simpa [Table.keys, Table.size] using congrArg List.length hkeys)

theorem not_alike_of_key {a b i : Nat} {e f : String × Value}
    (he : (h.dict a).entries[i]? = some e) (hf : (h.dict b).entries[i]? = some f)
    (hkey : e.1 ≠ f.1) (R : Value → Value → Prop) : ¬ h.Alike R (.dict a) (.dict b) := by
  intro halike
  have hkeys := congrArg (·[i]?) (Table.keys_eq_of_contains halike.1)
  exact hkey (by simpa [Table.keys, he, hf] using hkeys)

end

-- How a comparison to a depth ends. It does not look into a collection that it compares with
-- itself, and otherwise finds no difference, a difference, collections that are too deep, or two
-- parts that decide.
inductive Compared (h : Heap) : Nat → Value → Value → Except Stop Bool → Prop
  | same {depth : Nat} {a : Value} (ha : a.isCollection = true) : Compared h depth a a (.ok true)
  | alike {depth : Nat} {a b : Value}
      (hab : h.Alike (fun x y => ∃ d, h.equalTo d x y = .ok true) a b) :
      Compared h depth a b (.ok true)
  | differs {depth : Nat} {a b : Value} (hab : ∀ R, ¬ h.Alike R a b) :
      Compared h depth a b (.ok false)
  | deep {a b : Value} (ha : a.isCollection = true) (hb : b.isCollection = true) :
      Compared h 0 a b (refuse (.tooDeepToCompare compareDepth))
  | part {depth : Nat} {a b x y : Value} {r : Except Stop Bool} (s : Selector)
      (hx : h.child? a s = some x) (hy : h.child? b s = some y)
      (hxy : h.equalTo depth x y = r) (hr : r ≠ .ok true) : Compared h (depth + 1) a b r

theorem equalTo_self (h : Heap) (depth : Nat) {a : Value} (ha : a.isCollection = true) :
    h.equalTo depth a a = .ok true := by
  cases a with
  | list ref => cases depth <;> simp [equalTo]
  | dict ref => cases depth <;> simp [equalTo]
  | _ => cases ha

theorem compared_lists (h : Heap) (depth a b : Nat) :
    Compared h depth (.list a) (.list b) (h.equalTo depth (.list a) (.list b)) := by
  by_cases hsame : a = b
  · subst hsame
    rw [equalTo_self h depth rfl]
    exact .same rfl
  · cases depth with
    | zero =>
      simp only [equalTo, hsame, if_false]
      exact .deep rfl rfl
    | succ d =>
      simp only [equalTo, hsame, if_false]
      split
      · next hsize =>
        generalize hr : itemsEqual (h.equalTo d) (h.list a).toList (h.list b).toList = r
        by_cases htrue : r = .ok true
        · subst htrue
          refine .alike ⟨hsize, fun i x y hx hy => ⟨d, ?_⟩⟩
          rw [← Array.getElem?_toList] at hx hy
          exact eq_of_itemsEqual hr hx hy
        · obtain ⟨i, x, y, hx, hy, hxy⟩ := exists_of_itemsEqual hr htrue
          rw [Array.getElem?_toList] at hx hy
          exact .part (.position i) hx hy hxy htrue
      · next hsize => exact .differs fun R halike => hsize halike.1

theorem compared_dicts (h : Heap) (depth a b : Nat) :
    Compared h depth (.dict a) (.dict b) (h.equalTo depth (.dict a) (.dict b)) := by
  by_cases hsame : a = b
  · subst hsame
    rw [equalTo_self h depth rfl]
    exact .same rfl
  · cases depth with
    | zero =>
      simp only [equalTo, hsame, if_false]
      exact .deep rfl rfl
    | succ d =>
      simp only [equalTo, hsame, if_false]
      split
      · next hsize =>
        generalize hr : entriesEqual (h.equalTo d) (h.dict a).entries (h.dict b).entries = r
        by_cases htrue : r = .ok true
        · subst htrue
          obtain ⟨hkeys, hvalues⟩ := alike_of_entriesEqual hsize hr
          exact .alike ⟨hkeys, fun k x y hx hy => ⟨d, hvalues k x y hx hy⟩⟩
        · obtain ⟨i, e, f, he, hf, hcase⟩ := exists_of_entriesEqual hr htrue
          rcases hcase with ⟨hkey, rfl⟩ | ⟨hkey, hxy⟩
          · exact .differs (not_alike_of_key he hf hkey)
          · have hx := Table.get?_eq_some_iff.mpr (List.mem_of_getElem? he)
            have hy := Table.get?_eq_some_iff.mpr (List.mem_of_getElem? hf)
            rw [← hkey] at hy
            exact .part (.key e.1) hx hy hxy htrue
      · next hsize => exact .differs (not_alike_of_size hsize)

theorem compared (h : Heap) (depth : Nat) (a b : Value) :
    Compared h depth a b (h.equalTo depth a b) := by
  generalize hr : h.equalTo depth a b = r
  have hresult := hr
  unfold equalTo at hresult
  split at hresult
  · next a b => exact hr ▸ compared_lists h depth a b
  · next a b => exact hr ▸ compared_dicts h depth a b
  · next hlists hdicts =>
    subst hresult
    cases hscalar : scalarEqual a b with
    | true => exact .alike ((alike_iff_scalarEqual hlists hdicts).mpr hscalar)
    | false =>
      refine .differs fun R halike => ?_
      rw [alike_iff_scalarEqual hlists hdicts, hscalar] at halike
      cases halike

section

variable {eq eq' : Value → Value → Except Stop Bool} {r : Bool}

theorem entriesEqual_mono (heq : ∀ x y r, eq x y = .ok r → eq' x y = .ok r)
    {xs ys : List (String × Value)} (h : entriesEqual eq xs ys = .ok r) :
    entriesEqual eq' xs ys = .ok r := by
  induction xs generalizing ys with
  | nil => exact h
  | cons e xs ih =>
    cases ys with
    | nil => exact h
    | cons f ys =>
      obtain ⟨k, x⟩ := e
      obtain ⟨l, y⟩ := f
      rw [entriesEqual_cons] at h ⊢
      split at h
      · next hkey =>
        obtain ⟨same, hsame, h⟩ := bind_eq_ok.mp h
        rw [if_pos hkey]
        refine bind_eq_ok.mpr ⟨same, heq x y same hsame, ?_⟩
        cases same with
        | true => exact ih h
        | false => exact h
      · next hkey => rwa [if_neg hkey]

theorem itemsEqual_mono (heq : ∀ x y r, eq x y = .ok r → eq' x y = .ok r) {xs ys : List Value}
    (h : itemsEqual eq xs ys = .ok r) : itemsEqual eq' xs ys = .ok r := by
  rw [itemsEqual_eq_entriesEqual] at h ⊢
  exact entriesEqual_mono heq h

theorem equalTo_lists_of_ne {h : Heap} {a b : Nat} (hne : a ≠ b) (depth : Nat) :
    h.equalTo (depth + 1) (.list a) (.list b) =
      if (h.list a).size = (h.list b).size then
        itemsEqual (h.equalTo depth) (h.list a).toList (h.list b).toList
      else .ok false := by
  simp only [equalTo, hne, if_false]

theorem equalTo_dicts_of_ne {h : Heap} {a b : Nat} (hne : a ≠ b) (depth : Nat) :
    h.equalTo (depth + 1) (.dict a) (.dict b) =
      if (h.dict a).size = (h.dict b).size then
        entriesEqual (h.equalTo depth) (h.dict a).entries (h.dict b).entries
      else .ok false := by
  simp only [equalTo, hne, if_false]

theorem equalTo_cases (h : Heap) (a b : Value) :
    (∃ r s, a = .list r ∧ b = .list s) ∨ (∃ r s, a = .dict r ∧ b = .dict s) ∨
      ∀ depth, h.equalTo depth a b = .ok (scalarEqual a b) := by
  by_cases hlists : ∃ r s, a = .list r ∧ b = .list s
  · exact .inl hlists
  · by_cases hdicts : ∃ r s, a = .dict r ∧ b = .dict s
    · exact .inr (.inl hdicts)
    · refine .inr (.inr fun depth => ?_)
      unfold equalTo
      split
      · exact absurd ⟨_, _, rfl, rfl⟩ hlists
      · exact absurd ⟨_, _, rfl, rfl⟩ hdicts
      · rfl

theorem equalTo_zero {h : Heap} {a b : Value} (heq : h.equalTo 0 a b = .ok r) (depth : Nat) :
    h.equalTo depth a b = .ok r := by
  rcases equalTo_cases h a b with ⟨a, b, rfl, rfl⟩ | ⟨a, b, rfl, rfl⟩ | hscalar
  · by_cases hsame : a = b
    · subst hsame
      rwa [equalTo_self h _ rfl] at heq ⊢
    · simp only [equalTo, hsame, if_false] at heq
      cases heq
  · by_cases hsame : a = b
    · subst hsame
      rwa [equalTo_self h _ rfl] at heq ⊢
    · simp only [equalTo, hsame, if_false] at heq
      cases heq
  · rwa [hscalar] at heq ⊢

-- A comparison that has an answer has the same one if it may look deeper.
theorem equalTo_succ {h : Heap} {depth : Nat} {a b : Value} (heq : h.equalTo depth a b = .ok r) :
    h.equalTo (depth + 1) a b = .ok r := by
  induction depth generalizing a b r with
  | zero => exact equalTo_zero heq 1
  | succ depth ih =>
    rcases equalTo_cases h a b with ⟨a, b, rfl, rfl⟩ | ⟨a, b, rfl, rfl⟩ | hscalar
    · by_cases hsame : a = b
      · subst hsame
        rwa [equalTo_self h _ rfl] at heq ⊢
      · rw [equalTo_lists_of_ne hsame] at heq ⊢
        split at heq
        · next hsize => exact (if_pos hsize).trans (itemsEqual_mono (fun _ _ _ => ih) heq)
        · next hsize => exact (if_neg hsize).trans heq
    · by_cases hsame : a = b
      · subst hsame
        rwa [equalTo_self h _ rfl] at heq ⊢
      · rw [equalTo_dicts_of_ne hsame] at heq ⊢
        split at heq
        · next hsize => exact (if_pos hsize).trans (entriesEqual_mono (fun _ _ _ => ih) heq)
        · next hsize => exact (if_neg hsize).trans heq
    · rwa [hscalar] at heq ⊢

end

-- Numbers that are not equal to themselves do not occur in both values.
def Comparable (h : Heap) (a b : Value) : Prop :=
  ∀ x, h.Reaches a (.float x) → h.Reaches b (.float x) → (x == x) = true

section

variable {h : Heap} {a b x y : Value} {depth : Nat}

theorem Comparable.child (hab : h.Comparable a b) {s : Selector} (hx : h.child? a s = some x)
    (hy : h.child? b s = some y) : h.Comparable x y :=
  fun z hxz hyz => hab z (hxz.child hx) (hyz.child hy)

theorem Comparable.equalTo_self (hx : h.Comparable x x) : h.equalTo depth x x = .ok true := by
  cases hcollection : x.isCollection with
  | true => exact Heap.equalTo_self h depth hcollection
  | false =>
    cases x with
    | float z =>
      have hz := hx z ⟨[], rfl⟩ ⟨[], rfl⟩
      rw [equalTo, scalarEqual, hz]
      · rintro _ _ ⟨⟩
      · rintro _ _ ⟨⟩
    | list | dict => cases hcollection
    | _ => simp [equalTo, scalarEqual]

-- Success: the pairs of values that some comparison finds equal are a bisimulation.
theorem isBisimulation_equalTo (h : Heap) :
    h.IsBisimulation fun a b => h.Comparable a b ∧ ∃ depth, h.equalTo depth a b = .ok true := by
  rintro a b ⟨hab, depth, heq⟩
  have hcompared := heq ▸ compared h depth a b
  cases hcompared with
  | same ha =>
    refine alike_self ha fun s x hx => ?_
    have hself := hab.child hx hx
    exact ⟨hself, 0, hself.equalTo_self⟩
  | alike halike => exact halike.imp fun s x y hx hy hxy => ⟨hab.child hx hy, hxy⟩
  | part _ _ _ _ hr => exact absurd rfl hr

-- A difference: no bisimulation relates values that are found to be different.
theorem not_related_of_equalTo {R : Value → Value → Prop} (hR : h.IsBisimulation R)
    (heq : h.equalTo depth a b = .ok false) : ¬ R a b := by
  induction depth generalizing a b with
  | zero =>
    have hcompared := heq ▸ compared h 0 a b
    cases hcompared with
    | differs hab => exact fun hrel => hab R (hR a b hrel)
  | succ depth ih =>
    have hcompared := heq ▸ compared h (depth + 1) a b
    cases hcompared with
    | differs hab => exact fun hrel => hab R (hR a b hrel)
    | part s hx hy hxy _ => exact fun hrel => ih hxy ((hR a b hrel).child hx hy)

-- A failure: both values are still collections at the end of a path that is as long as the depth.
theorem exists_path_of_equalTo {s : Stop} (heq : h.equalTo depth a b = .error s) :
    s = .fault (.runtime (.tooDeepToCompare compareDepth)) ∧
      ∃ path x y, path.length = depth ∧ h.follow? path a = some x ∧ h.follow? path b = some y ∧
        x.isCollection = true ∧ y.isCollection = true := by
  induction depth generalizing a b with
  | zero =>
    have hcompared := heq ▸ compared h 0 a b
    cases hcompared with
    | deep ha hb => exact ⟨rfl, [], a, b, rfl, rfl, rfl, ha, hb⟩
  | succ depth ih =>
    have hcompared := heq ▸ compared h (depth + 1) a b
    cases hcompared with
    | part s hx hy hxy _ =>
      obtain ⟨hs, path, x, y, hlength, hpx, hpy, hcx, hcy⟩ := ih hxy
      refine ⟨hs, s :: path, x, y, congrArg (· + 1) hlength, ?_, ?_, hcx, hcy⟩
      · exact (follow?_cons hx path).trans hpx
      · exact (follow?_cons hy path).trans hpy

end

-- Values whose collections are nested to as many levels as are compared.
theorem equal_isOk_of_nestedWithin {h : Heap} {a b : Value}
    (hnested : h.nestedWithin compareDepth a = true ∨ h.nestedWithin compareDepth b = true) :
    ∃ r, h.equal a b = .ok r := by
  cases heq : h.equal a b with
  | ok r => exact ⟨r, rfl⟩
  | error s =>
    obtain ⟨-, path, x, y, hlength, hpx, hpy, hcx, hcy⟩ := exists_path_of_equalTo heq
    rcases hnested with ha | hb
    · exact absurd hlength (Nat.ne_of_lt (nestedWithin_iff.mp ha path x hpx hcx))
    · exact absurd hlength (Nat.ne_of_lt (nestedWithin_iff.mp hb path y hpy hcy))

-- Equality of values agrees with bisimilarity wherever it has an answer, and it has one unless
-- both values are nested to more levels than it looks at.
theorem equality_is_sound (h : Heap) (a b : Value) :
    ((∀ x, h.Reaches a (.float x) → h.Reaches b (.float x) → (x == x) = true) →
      h.equal a b = .ok true → h.Bisimilar a b) ∧
    (h.equal a b = .ok false → ¬ h.Bisimilar a b) ∧
    (∀ s, h.equal a b = .error s →
      s = .fault (.runtime (.tooDeepToCompare 64)) ∧
        ∃ path x y, path.length = 64 ∧ h.follow? path a = some x ∧ h.follow? path b = some y ∧
          x.isCollection = true ∧ y.isCollection = true) ∧
    (h.nestedWithin 64 a = true ∨ h.nestedWithin 64 b = true → ∃ r, h.equal a b = .ok r) := by
  refine ⟨?_, ?_, ?_, ?_⟩
  · intro hcomparable heq
    exact ⟨_, isBisimulation_equalTo h, hcomparable, compareDepth, heq⟩
  · rintro heq ⟨R, hR, hab⟩
    exact not_related_of_equalTo hR heq hab
  · intro s heq
    exact exists_path_of_equalTo heq
  · exact equal_isOk_of_nestedWithin

-- Two lists that hold themselves, two that hold the first of them, and one that holds no lists.
def knots : Heap :=
  { Heap.empty with lists := #[#[.list 0], #[.list 1], #[.list 0], #[.list 0, .void], #[.void]] }

theorem eq_of_reaches_knot {x : Value} (hx : knots.Reaches (.list 0) x) : x = .list 0 := by
  obtain ⟨path, hpath⟩ := hx
  induction path with
  | nil =>
    cases hpath
    rfl
  | cons s path ih =>
    obtain ⟨c, hc, hpath⟩ := child?_of_follow? hpath
    have hknot : c = .list 0 := by
      rcases s with (_ | i) | k
      · cases hc
        rfl
      · cases hc
      · cases hc
    subst hknot
    exact ih hpath

theorem equalTo_knots (depth : Nat) :
    knots.equalTo depth (.list 0) (.list 1) = refuse (.tooDeepToCompare compareDepth) := by
  induction depth with
  | zero => rfl
  | succ depth ih =>
    have hstep : knots.equalTo (depth + 1) (.list 0) (.list 1) =
        itemsEqual (knots.equalTo depth) [.list 0] [.list 1] := rfl
    rw [hstep, itemsEqual, ih]
    rfl

theorem knots_are_compared :
    knots.Bisimilar (.list 0) (.list 2) ∧
    ¬ knots.Bisimilar (.list 0) (.list 3) ∧
    (∃ path x y, path.length = 64 ∧ knots.follow? path (.list 0) = some x ∧
      knots.follow? path (.list 1) = some y ∧ x.isCollection = true ∧ y.isCollection = true) ∧
    ∃ r, knots.equal (.list 0) (.list 4) = .ok r := by
  have hfloats : ∀ x, knots.Reaches (.list 0) (.float x) → knots.Reaches (.list 2) (.float x) →
      (x == x) = true := by
    intro x hx _
    cases eq_of_reaches_knot hx
  refine ⟨?_, ?_, ?_, ?_⟩
  · exact (equality_is_sound knots (.list 0) (.list 2)).1 hfloats rfl
  · exact (equality_is_sound knots (.list 0) (.list 3)).2.1 rfl
  · exact ((equality_is_sound knots (.list 0) (.list 1)).2.2.1 _ (equalTo_knots 64)).2
  · exact (equality_is_sound knots (.list 0) (.list 4)).2.2.2 (.inr rfl)

end Parlance.Heap
