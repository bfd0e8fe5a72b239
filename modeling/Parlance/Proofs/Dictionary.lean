import Parlance.Host.Local
import Parlance.Proofs.Builtin
import Parlance.Proofs.Dictionary.Sparing
import Parlance.Proofs.Heap.Store
import Parlance.Proofs.Text.Encoding

namespace Parlance

section

variable {w : World} {ref : Nat} {stores : List (String × Value)} {k : String} {v : Value}

namespace Heap

variable {h : Heap}

-- A new dictionary holds what it is made of, and the others are as they were.
theorem holds_place (h : Heap) (stores : List (String × Value)) :
    (h.place (.dict (Table.ofList stores))).2.Holds h.dicts.size stores := by
  constructor
  · simp [place]
  · simp [place, dict, Array.getD_eq_getD_getElem?]

theorem Holds.place (hh : h.Holds ref stores) (d : Draft) : (h.place d).2.Holds ref stores :=
  hh.congr (h.keepsDicts_place d ref hh.placed)

theorem Holds.put (hh : h.Holds ref stores) (k : String) (v : Value) :
    (h.put v (.entry ref k)).Holds ref (stores ++ [(k, v)]) := by
  constructor
  · simpa [Heap.put] using hh.placed
  · rw [dict_put h v hh.placed, if_pos rfl, hh.contents, Table.ofList_concat]

theorem Holds.put_of_ne (hh : h.Holds ref stores) {other : Nat} (hne : ref ≠ other) (k : String)
    (v : Value) : (h.put v (.entry other k)).Holds ref stores :=
  hh.congr (getElem?_dicts_put (by simpa [Slot.isIn] using hne.symm) v)

end Heap

namespace Eval

variable {ev : Evaluators} {env : Nat}

-- The entries of a literal are evaluated in order and stored one after another.
theorem entries_eq (ev : Evaluators) (env : Nat) (table : Table Value)
    (es : List (String × Expr)) :
    entries ev env table es = do
      let values ← (es.map Prod.snd).mapM (ev.expr env)
      return ((es.map Prod.fst).zip values).foldl (fun t e => t.insert e.1 e.2) table := by
  induction es generalizing table with
  | nil => rfl
  | cons e rest ih =>
    obtain ⟨key, e⟩ := e
    simp only [entries, ih, List.map_cons, List.mapM_cons, bind_assoc, pure_bind,
      List.zip_cons_cons, List.foldl_cons]

theorem expr_dict (brace : Token) (es : List (String × Expr)) {values : List Value} {u : World}
    (hvalues : (es.map Prod.snd).mapM (ev.expr env) w = .ok values u) :
    expr ev env (.dict brace es) w =
      .ok (.dict u.heap.dicts.size) { u with
        heap := (u.heap.place (.dict (Table.ofList ((es.map Prod.fst).zip values)))).2 } := by
  change (entries ev env Table.empty es >>= fun table => Exec.place (.dict table)) w = _
  rw [entries_eq, bind_assoc, Exec.bind_apply, hvalues]
  rfl

-- A dictionary that is declared without a value has no entries.
theorem stmt_declaration_dict (ev : Evaluators) (bound env : Nat) (name : Token) (w : World) :
    stmt ev bound env (.declaration ⟨name, .dict, none⟩) w =
      .ok .normal { w with
        heap := (w.heap.place (.dict (Table.ofList []))).2
        frames := w.frames.define env name.lexeme (.dict w.heap.dicts.size) } := rfl

theorem expr_assign_entry {u u' t : World} {eq : Token} {container index value : Expr}
    (hv : ev.expr env value w = .ok v u) (hc : ev.expr env container u = .ok (.dict ref) u')
    (hi : ev.expr env index u' = .ok (.str k) t) :
    expr ev env (.assign eq (.access container index) value) w =
      .ok v { t with heap := t.heap.put v (.entry ref k) } := by
  change assignment ev env (.access container index) value w = _
  rw [assignment, Exec.bind_apply, hv]
  simp only [Exec.bind_apply, assign_of_slot hc hi (show t.heap.slot (.dict ref) (.str k) =
    .ok (.entry ref k) from rfl) v]
  rfl

end Eval

end

-- The list that `keys` makes of a dictionary.
def World.Enumerates (w : World) (ref : Nat) (keys : List String) : Prop :=
  ∀ ev env, ∃ t, Eval.invoke ev env "keys" [.dict ref] w = .ok (.list w.heap.lists.size) t ∧
    (t.heap.list w.heap.lists.size).toList = keys.map .str

-- What programs are shown of a dictionary: its keys, the items of a loop, its text and its JSON
-- all come from the same entries. Values are written out in it to 63 levels, one less than
-- outside.
structure World.Shows (w : World) (ref : Nat) (entries : List (String × Value)) : Prop where
  keys : w.Enumerates ref (entries.map Prod.fst)
  items : w.heap.iterate (.dict ref) = .ok (entries.map fun e => .str e.1)
  loop : ∀ ev bound env d iterable body u, ev.expr env iterable u = .ok (.dict ref) w →
    Eval.stmt ev bound env (.each d iterable body) u =
      Eval.eachItem ev env d.name.lexeme body (entries.map fun e => .str e.1) w
  text : w.heap.display (.dict ref) = "\x7b" ++ ", ".intercalate
    (entries.map fun e => "\"" ++ e.1 ++ "\": " ++ (w.heap.tree 63 e.2).inner) ++ "\x7d"
  json : w.heap.toJson (.dict ref) =
    .object (entries.map fun e => (e.1, (w.heap.tree 63 e.2).json))

theorem World.enumerates_keys (w : World) (ref : Nat) :
    w.Enumerates ref (w.heap.dict ref).keys := by
  intro ev env
  rw [show "keys" = Builtin.keys.name from rfl, Eval.invoke_name]
  refine ⟨{ w with heap := (w.heap.place (Eval.texts (w.heap.dict ref).keys)).2 }, rfl, ?_⟩
  simp [Eval.texts, Heap.place, Heap.list, Array.getD_eq_getD_getElem?]

theorem World.shows_entries (w : World) (ref : Nat) : w.Shows ref (w.heap.dict ref).entries where
  keys := w.enumerates_keys ref
  items := congrArg Except.ok (by simp [Table.keys])
  loop ev bound env d iterable body u hu := by
    change Eval.each ev env d.name iterable body u = _
    rw [Eval.each, Exec.bind_apply, hu]
    simp only [Exec.bind_apply, Exec.atLine, Exec.reading, Heap.iterate, Table.keys, List.map_map]
    rfl
  text := by
    have htext : w.heap.display (.dict ref) = (w.heap.tree 64 (.dict ref)).inner :=
      w.heap.displayTo_eq_text 64 (.dict ref)
    rw [htext, Heap.tree_dict, Tree.inner_dict, List.map_map]
    rfl
  json := by
    rw [Heap.toJson, Heap.toJsonTo_eq_json, Heap.displayDepth, Heap.tree_dict, Tree.json,
      Tree.fold_dict, List.map_map]
    rfl

theorem Table.entries_bytes_sorted (t : Table Value) :
    (t.entries.map fun e => Text.bytes e.1).Pairwise (· < ·) := by
  rw [List.pairwise_map]
  exact t.sorted.imp fun h => Text.lt_iff_bytes_lt.mp h

-- Dictionaries are given by what is stored last under each key, in whatever order it is stored.
-- A literal stores its entries, one that is declared without a value holds none, and an assignment
-- to a key is one store more. Whatever stores nothing in a dictionary leaves it as it is. Stores
-- that leave the same values leave dictionaries with the same text, JSON and keys; stores that
-- leave equal values leave dictionaries that are equal if they can be compared. In every world
-- the entries of a dictionary are shown in the order of the bytes of their keys, each key once
-- and with what was stored last.
theorem dictionaries_are_extensional_and_ordered :
    (∀ (ev : Evaluators) env brace (es : List (String × Expr)) (w : World) values u,
      (es.map Prod.snd).mapM (ev.expr env) w = .ok values u →
      ∃ t, Eval.expr ev env (.dict brace es) w = .ok (.dict u.heap.dicts.size) t ∧
        t.heap.Holds u.heap.dicts.size ((es.map Prod.fst).zip values) ∧
        ∀ ref stores, u.heap.Holds ref stores → t.heap.Holds ref stores) ∧
    (∀ ev bound env name w,
      ∃ t, Eval.stmt ev bound env (.declaration ⟨name, .dict, none⟩) w = .ok .normal t ∧
        t.frames = w.frames.define env name.lexeme (.dict w.heap.dicts.size) ∧
        t.heap.Holds w.heap.dicts.size [] ∧
        ∀ ref stores, w.heap.Holds ref stores → t.heap.Holds ref stores) ∧
    (∀ ev env eq container index value w w₁ w₂ w₃ v ref k stores,
      ev.expr env value w = .ok v w₁ → ev.expr env container w₁ = .ok (.dict ref) w₂ →
      ev.expr env index w₂ = .ok (.str k) w₃ → w₃.heap.Holds ref stores →
      ∃ t, Eval.expr ev env (.assign eq (.access container index) value) w = .ok v t ∧
        t.heap.Holds ref (stores ++ [(k, v)]) ∧
        ∀ other stores', other ≠ ref → w₃.heap.Holds other stores' →
          t.heap.Holds other stores') ∧
    (∀ fuel ref stores w, w.heap.Holds ref stores →
      (∀ env e, (Eval.sparing ref fuel).expr env e w = (evaluators fuel).expr env e w →
        (Outcome.world ((evaluators fuel).expr env e w)).heap.Holds ref stores) ∧
      (∀ env s, (Eval.sparing ref fuel).stmt env s w = (evaluators fuel).stmt env s w →
        (Outcome.world ((evaluators fuel).stmt env s w)).heap.Holds ref stores) ∧
      (∀ p, runWith (Eval.sparing ref fuel) p w = runStatements fuel p w →
        (Outcome.world (runStatements fuel p w)).heap.Holds ref stores)) ∧
    (∀ w w' : World, ∀ a b as bs, w.heap.Holds a as → w'.heap.Holds b bs →
      (∀ n k, (Table.last? as k).map (w.heap.tree n) = (Table.last? bs k).map (w'.heap.tree n)) →
      w.heap.display (.dict a) = w'.heap.display (.dict b) ∧
      w.heap.toJson (.dict a) = w'.heap.toJson (.dict b) ∧
      w.heap.iterate (.dict a) = w'.heap.iterate (.dict b) ∧
      ∃ keys, w.Enumerates a keys ∧ w'.Enumerates b keys) ∧
    (∀ (h : Heap) a b as bs, h.Holds a as → h.Holds b bs →
      (∀ k, (Table.last? as k).isSome = (Table.last? bs k).isSome) →
      (∀ k x y, Table.last? as k = some x → Table.last? bs k = some y →
        h.equal x y = .ok true) →
      (∀ r, h.equal (.dict a) (.dict b) = .ok r → r = true) ∧
      (h.nestedWithin 64 (.dict a) = true ∨ h.nestedWithin 64 (.dict b) = true →
        h.equal (.dict a) (.dict b) = .ok true)) ∧
    (∀ (w : World) ref, ∃ entries, w.Shows ref entries ∧
      (entries.map fun e => Text.bytes e.1).Pairwise (· < ·) ∧
      ∀ stores, w.heap.Holds ref stores → ∀ k v,
        (k, v) ∈ entries ↔ Table.last? stores k = some v) := by
  refine ⟨?_, ?_, ?_, ?_, ?_, ?_, ?_⟩
  · intro ev env brace es w values u hvalues
    exact ⟨_, Eval.expr_dict brace es hvalues, u.heap.holds_place _, fun _ _ h => h.place _⟩
  · intro ev bound env name w
    exact ⟨_, Eval.stmt_declaration_dict ev bound env name w, rfl, w.heap.holds_place [],
      fun _ _ h => h.place _⟩
  · intro ev env eq container index value w w₁ w₂ w₃ v ref k stores hv hc hi hstores
    exact ⟨_, Eval.expr_assign_entry hv hc hi, hstores.put k v,
      fun _ _ hne h => h.put_of_ne hne k v⟩
  · intro fuel ref stores w hw
    have htied := untouched.sparing_tied ref stores fuel
    refine ⟨fun env e hsame => ?_, fun env s hsame => ?_, fun p hsame => ?_⟩
    · exact untouched.holds (htied.expr env e) hsame hw
    · exact untouched.holds (htied.stmt env trivial) hsame hw
    · exact untouched.holds (Simulation.run untouched.lawful htied fun _ _ => trivial) hsame hw
  · intro w w' a b as bs ha hb hlast
    have htree := Heap.tree_eq_of_stores ha hb hlast
    have hkeys : (w.heap.dict a).keys = (w'.heap.dict b).keys := by
      refine Heap.keys_eq_of_stores ha hb fun k => ?_
      have hsome := congrArg Option.isSome (hlast 0 k)
      rwa [Option.isSome_map, Option.isSome_map] at hsome
    refine ⟨?_, ?_, ?_, (w.heap.dict a).keys, w.enumerates_keys a, hkeys ▸ w'.enumerates_keys b⟩
    · rw [Heap.display, Heap.display, Heap.displayTo_eq_text, Heap.displayTo_eq_text, htree]
    · rw [Heap.toJson, Heap.toJson, Heap.toJsonTo_eq_json, Heap.toJsonTo_eq_json, htree]
    · rw [Heap.iterate, Heap.iterate, hkeys]
  · intro h a b as bs ha hb hkeys hvalues
    have hequal : ∀ r, h.equal (.dict a) (.dict b) = .ok r → r = true :=
      fun r => Heap.equal_of_stores ha hb hkeys hvalues
    refine ⟨hequal, fun hnested => ?_⟩
    obtain ⟨r, hr⟩ := Heap.equal_isOk_of_nestedWithin hnested
    rw [hr, hequal r hr]
  · intro w ref
    refine ⟨_, w.shows_entries ref, (w.heap.dict ref).entries_bytes_sorted, ?_⟩
    intro stores hstores k v
    rw [← Table.get?_eq_some_iff, hstores.get?]

-- Two ways to fill a dictionary: from the last key to the first, and in order with a value that is
-- replaced.
def backward : List (String × Value) :=
  [("b", .str "x"), ("a", .str "y")]

def forward : List (String × Value) :=
  [("a", .str "z"), ("b", .str "x"), ("a", .str "y")]

theorem last?_backward (k : String) :
    Table.last? backward k =
      if k = "a" then some (.str "y") else if k = "b" then some (.str "x") else none := by
  simp only [backward, Table.last?_cons, Table.last?_nil]
  by_cases ha : k = "a"
  · simp [ha]
  · by_cases hb : k = "b" <;> simp [ha, hb]

theorem last?_forward (k : String) : Table.last? forward k = Table.last? backward k := by
  rw [last?_backward]
  simp only [forward, Table.last?_cons, Table.last?_nil]
  by_cases ha : k = "a"
  · simp [ha]
  · by_cases hb : k = "b" <;> simp [ha, hb]

theorem exists_text_of_backward {k : String} {v : Value}
    (h : Table.last? backward k = some v) : ∃ s, v = .str s := by
  rw [last?_backward] at h
  split at h
  · cases h
    exact ⟨_, rfl⟩
  · split at h
    · cases h
      exact ⟨_, rfl⟩
    · cases h

-- A world with a dictionary that was filled in the first way, and an assignment that fills
-- another one in the second way.
def stocked : World :=
  { World.fresh (.captured "") ⟨true, .loopback⟩ with
    heap := (Heap.empty.place (.dict (Table.ofList backward))).2 }

def shelf : List (String × Expr) :=
  [("a", .constant ⟨.string, "z", 1⟩), ("b", .constant ⟨.string, "x", 1⟩)]

def restocking : Expr :=
  .assign ⟨.equal, "=", 1⟩
    (.access (.dict ⟨.leftBrace, "\x7b", 1⟩ shelf) (.constant ⟨.string, "a", 1⟩))
    (.constant ⟨.string, "y", 1⟩)

theorem expr_string_constant (n : Nat) (s : String) (w : World) :
    (evaluators (n + 1)).expr globals (.constant ⟨.string, s, 1⟩) w = .ok (.str s) w := by
  rw [evaluators_succ]
  rfl

theorem restocking_agrees_with_stocked :
    ∃ t : World, (evaluators 3).expr globals restocking stocked = .ok (.str "y") t ∧
      t.heap.Holds 0 backward ∧ t.heap.Holds 1 forward ∧
      t.heap.equal (.dict 0) (.dict 1) = .ok true ∧
      t.heap.display (.dict 0) = t.heap.display (.dict 1) ∧
      ∃ entries, t.Shows 1 entries ∧ ("a", .str "y") ∈ entries ∧ ("a", .str "z") ∉ entries := by
  obtain ⟨literal, -, assigned, spared, same, equal, ordered⟩ :=
    dictionaries_are_extensional_and_ordered
  have hvalues : (shelf.map Prod.snd).mapM ((evaluators 1).expr globals) stocked =
      .ok [.str "z", .str "x"] stocked := by
    simp only [shelf, List.map_cons, List.map_nil, List.mapM_cons, List.mapM_nil,
      Exec.bind_apply, expr_string_constant]
    rfl
  obtain ⟨u, hu, hnew, -⟩ := literal (evaluators 1) globals ⟨.leftBrace, "\x7b", 1⟩ shelf
    stocked _ _ hvalues
  have hcontainer : (evaluators 2).expr globals (.dict ⟨.leftBrace, "\x7b", 1⟩ shelf) stocked =
      .ok (.dict 1) u := by
    rw [evaluators_succ]
    simp only [Exec.atLine, hu]
    rfl
  obtain ⟨t, ht, hstored, -⟩ := assigned (evaluators 2) globals ⟨.equal, "=", 1⟩ _ _ _ stocked
    stocked u u (.str "y") 1 "a" _ (expr_string_constant 1 "y" stocked) hcontainer
    (expr_string_constant 1 "a" u) hnew
  have hforward : t.heap.Holds 1 forward := hstored
  have hrun : (evaluators 3).expr globals restocking stocked = .ok (.str "y") t := by
    rw [evaluators_succ]
    simp only [Exec.atLine, restocking, ht]
  -- The assignment is to the other dictionary.
  have hbackward : t.heap.Holds 0 backward := by
    have hspared := (spared 3 0 backward stocked (Heap.empty.holds_place backward)).1 globals
      restocking (by with_unfolding_all rfl)
    rwa [hrun] at hspared
  have hnested : t.heap.nestedWithin 64 (.dict 0) = true := by
    refine Heap.nestedWithin_succ_iff.mpr fun s c hc => ?_
    cases s with
    | position i => cases hc
    | key k =>
      obtain ⟨s, rfl⟩ := exists_text_of_backward ((hbackward.get? k).symm.trans hc)
      rfl
  refine ⟨t, hrun, hbackward, hforward, ?_, ?_, ?_⟩
  · have hkeys := fun k => congrArg Option.isSome (last?_forward k).symm
    refine (equal t.heap 0 1 _ _ hbackward hforward hkeys ?_).2 (.inl hnested)
    intro k x y hx hy
    obtain ⟨s, rfl⟩ := exists_text_of_backward hx
    rw [last?_forward, hx] at hy
    cases hy
    simp [Heap.equal, Heap.equalTo, Heap.scalarEqual]
  · refine (same t t 0 1 _ _ hbackward hforward fun n k => ?_).1
    rw [last?_forward]
  · obtain ⟨entries, hshows, -, hentries⟩ := ordered t 1
    have hlast : Table.last? forward "a" = some (.str "y") := by
      rw [last?_forward, last?_backward, if_pos rfl]
    refine ⟨entries, hshows, ?_, ?_⟩
    · rw [hentries forward hforward, hlast]
    · rw [hentries forward hforward, hlast]
      simp

end Parlance
