import Parlance.Heap.Display
import Parlance.Proofs.Heap.Path

namespace Parlance

-- What a value that is written out ends in: a scalar, a channel, or the mark for a collection that
-- is left out.
inductive Leaf where
  | int (n : Int64)
  | float (x : Float)
  | str (s : String)
  | bool (b : Bool)
  | void
  | channel (text : String)
  | listMark
  | dictMark

namespace Leaf

-- A text of its own is shown as it is, and one inside a collection with quotes.
def text (inside : Bool) : Leaf → String
  | int n => toString n.toInt
  | float x => Decimal.display x
  | str s => if inside then "\"" ++ s ++ "\"" else s
  | bool b => if b then "true" else "false"
  | void => "void"
  | channel text => text
  | listMark => "[...]"
  | dictMark => "\x7b...\x7d"

-- JSON has no infinite numbers.
def json : Leaf → JsonValue
  | int n => .int n.toInt
  | float x => if x.isFinite then .float x else .null
  | str s => .str s
  | bool b => .bool b
  | void => .null
  | channel text => .str text
  | listMark => .str "..."
  | dictMark => .str "..."

def isMark : Leaf → Bool
  | listMark => true
  | dictMark => true
  | _ => false

end Leaf

-- Values that are written out: collections hold what is in them and not where it is.
inductive Tree where
  | leaf (l : Leaf)
  | list (items : List Tree)
  | dict (entries : List (String × Tree))

namespace Tree

variable {α : Type} (leaf : Leaf → α) (list : List α → α) (dict : List (String × α) → α)

mutual

-- Whatever is put together from the leaves up.
def fold : Tree → α
  | .leaf l => leaf l
  | .list items => list (foldItems items)
  | .dict entries => dict (foldEntries entries)

def foldItems : List Tree → List α
  | [] => []
  | t :: ts => fold t :: foldItems ts

def foldEntries : List (String × Tree) → List (String × α)
  | [] => []
  | (k, t) :: es => (k, fold t) :: foldEntries es

end

@[simp]
theorem fold_list (items : List Tree) :
    (Tree.list items).fold leaf list dict = list (items.map (fold leaf list dict)) := by
  have hitems : foldItems leaf list dict items = items.map (fold leaf list dict) := by
    induction items with
    | nil => rfl
    | cons t ts ih => rw [foldItems, ih, List.map_cons]
  rw [fold, hitems]

@[simp]
theorem fold_dict (entries : List (String × Tree)) :
    (Tree.dict entries).fold leaf list dict =
      dict (entries.map fun e => (e.1, e.2.fold leaf list dict)) := by
  have hentries : foldEntries leaf list dict entries =
      entries.map fun e => (e.1, e.2.fold leaf list dict) := by
    induction entries with
    | nil => rfl
    | cons e es ih => rw [foldEntries, ih, List.map_cons]
  rw [fold, hentries]

-- The text of a tree inside a collection, and of one that is shown on its own.
def inner : Tree → String :=
  fold (Leaf.text true) (fun items => "[" ++ ", ".intercalate items ++ "]") fun entries =>
    "\x7b" ++ ", ".intercalate (entries.map fun e => "\"" ++ e.1 ++ "\": " ++ e.2) ++ "\x7d"

theorem inner_list (items : List Tree) :
    (Tree.list items).inner = "[" ++ ", ".intercalate (items.map inner) ++ "]" := by
  rw [inner, fold_list]

theorem inner_dict (entries : List (String × Tree)) :
    (Tree.dict entries).inner = "\x7b" ++
      ", ".intercalate (entries.map fun e => "\"" ++ e.1 ++ "\": " ++ e.2.inner) ++ "\x7d" := by
  rw [inner, fold_dict, List.map_map]
  rfl

def text : Tree → String
  | .leaf l => l.text false
  | t => t.inner

def json : Tree → JsonValue :=
  fold Leaf.json .array .object

-- Nothing is left out.
def isWhole : Tree → Bool :=
  fold (fun l => !l.isMark) (fun items => items.all id) (fun entries => entries.all Prod.snd)

-- Leaves out all collections at a level.
def cut : Nat → Tree → Tree
  | _, .leaf l => .leaf l
  | 0, .list _ => .leaf .listMark
  | 0, .dict _ => .leaf .dictMark
  | n + 1, .list items => .list (items.map (cut n))
  | n + 1, .dict entries => .dict (entries.map fun e => (e.1, cut n e.2))

def child? (t : Tree) (s : Selector) : Option Tree :=
  match t, s with
  | .list items, .position i => items[i]?
  | .dict entries, .key k => entries.lookup k
  | _, _ => none

-- The part of a tree at the end of a path.
def follow? : List Selector → Tree → Option Tree
  | [], t => some t
  | s :: path, t => (t.child? s).bind (follow? path)

end Tree

namespace Heap

-- A value that is not written out further.
def leaf (h : Heap) : Value → Leaf
  | .int n => .int n
  | .float x => .float x
  | .str s => .str s
  | .bool b => .bool b
  | .void => .void
  | .client ref => .channel (h.clientText ref)
  | .server ref => .channel (h.serverText ref)
  | .list _ => .listMark
  | .dict _ => .dictMark

-- A value written out to a number of levels. A collection that holds itself is written out again
-- at every level.
def tree (h : Heap) : Nat → Value → Tree
  | n + 1, .list ref => .list ((h.list ref).toList.map (h.tree n))
  | n + 1, .dict ref => .dict ((h.dict ref).entries.map fun e => (e.1, h.tree n e.2))
  | _, v => .leaf (h.leaf v)

theorem tree_zero (h : Heap) (v : Value) : h.tree 0 v = .leaf (h.leaf v) := by
  cases v <;> rfl

theorem tree_list (h : Heap) (n ref : Nat) :
    h.tree (n + 1) (.list ref) = .list ((h.list ref).toList.map (h.tree n)) :=
  rfl

theorem tree_dict (h : Heap) (n ref : Nat) :
    h.tree (n + 1) (.dict ref) = .dict ((h.dict ref).entries.map fun e => (e.1, h.tree n e.2)) :=
  rfl

theorem scalarText_eq (h : Heap) (quoted : Bool) (v : Value) :
    h.scalarText quoted v = (h.leaf v).text quoted := by
  cases v <;> rfl

theorem scalarJson_eq (h : Heap) (v : Value) : h.scalarJson v = (h.leaf v).json := by
  cases v <;> rfl

theorem displayTo_zero (h : Heap) (quoted : Bool) (v : Value) :
    h.displayTo 0 quoted v = (h.leaf v).text quoted := by
  cases v <;> rfl

theorem toJsonTo_zero (h : Heap) (v : Value) : h.toJsonTo 0 v = (h.leaf v).json := by
  cases v <;> rfl

-- What is shown to a depth is the text of the value written out to that depth.
theorem displayTo_eq_inner (h : Heap) (n : Nat) (v : Value) :
    h.displayTo n true v = (h.tree n v).inner := by
  induction n generalizing v with
  | zero =>
    rw [displayTo_zero, tree_zero]
    rfl
  | succ n ih =>
    cases v with
    | list ref =>
      rw [displayTo, tree_list, Tree.inner_list, listText, List.map_map,
        List.map_congr_left fun x _ => ih x]
      rfl
    | dict ref =>
      have hentries := List.map_congr_left (l := (h.dict ref).entries)
        fun e _ => congrArg (e.1, ·) (ih e.2)
      rw [displayTo, tree_dict, Tree.inner_dict, dictText, hentries, List.map_map, List.map_map]
      rfl
    | _ => exact h.scalarText_eq true _

theorem displayTo_eq_text (h : Heap) (n : Nat) (v : Value) :
    h.displayTo n false v = (h.tree n v).text := by
  cases n with
  | zero =>
    rw [displayTo_zero, tree_zero]
    rfl
  | succ n =>
    cases v with
    | list ref => exact h.displayTo_eq_inner (n + 1) (.list ref)
    | dict ref => exact h.displayTo_eq_inner (n + 1) (.dict ref)
    | _ => exact h.scalarText_eq false _

theorem toJsonTo_eq_json (h : Heap) (n : Nat) (v : Value) :
    h.toJsonTo n v = (h.tree n v).json := by
  induction n generalizing v with
  | zero =>
    rw [toJsonTo_zero, tree_zero]
    rfl
  | succ n ih =>
    cases v with
    | list ref =>
      rw [toJsonTo, tree_list, Tree.json, Tree.fold_list, List.map_map]
      exact congrArg JsonValue.array (List.map_congr_left fun x _ => ih x)
    | dict ref =>
      rw [toJsonTo, tree_dict, Tree.json, Tree.fold_dict, List.map_map]
      exact congrArg JsonValue.object
        (List.map_congr_left fun e _ => congrArg (e.1, ·) (ih e.2))
    | _ => exact h.scalarJson_eq _

-- Writing out more levels and leaving the collections at a level out is writing out to it.
theorem cut_tree (h : Heap) {n m : Nat} (hnm : n ≤ m) (v : Value) :
    (h.tree m v).cut n = h.tree n v := by
  induction n generalizing m v with
  | zero =>
    rw [tree_zero]
    cases m with
    | zero =>
      rw [tree_zero, Tree.cut]
    | succ m => cases v <;> rfl
  | succ n ih =>
    cases m with
    | zero => exact absurd hnm (Nat.not_succ_le_zero n)
    | succ m =>
      have hle := Nat.le_of_succ_le_succ hnm
      cases v with
      | list ref =>
        rw [tree_list, tree_list, Tree.cut, List.map_map]
        exact congrArg Tree.list (List.map_congr_left fun x _ => ih hle x)
      | dict ref =>
        rw [tree_dict, tree_dict, Tree.cut, List.map_map]
        exact congrArg Tree.dict (List.map_congr_left fun e _ => congrArg (e.1, ·) (ih hle e.2))
      | _ => rfl

-- Nothing is left out of a value exactly if it is nested to no more levels.
theorem isWhole_tree (h : Heap) (n : Nat) (v : Value) :
    (h.tree n v).isWhole = h.nestedWithin n v := by
  induction n generalizing v with
  | zero =>
    rw [tree_zero, nestedWithin_zero]
    cases v <;> rfl
  | succ n ih =>
    cases v with
    | list ref =>
      rw [tree_list, nestedWithin, Tree.isWhole, Tree.fold_list, List.map_map, List.all_map]
      exact congrArg _ (funext ih)
    | dict ref =>
      rw [tree_dict, nestedWithin, Tree.isWhole, Tree.fold_dict, List.map_map, List.all_map]
      exact congrArg _ (funext fun e => ih e.2)
    | _ => rfl

theorem tree_of_nestedWithin {h : Heap} {n m : Nat} (hnm : n ≤ m) {v : Value}
    (hv : h.nestedWithin n v = true) : h.tree m v = h.tree n v := by
  induction n generalizing m v with
  | zero =>
    rw [nestedWithin_zero] at hv
    cases v with
    | list | dict => cases hv
    | _ => cases m <;> rfl
  | succ n ih =>
    cases m with
    | zero => exact absurd hnm (Nat.not_succ_le_zero n)
    | succ m =>
      have hle := Nat.le_of_succ_le_succ hnm
      cases v with
      | list ref =>
        rw [nestedWithin, List.all_eq_true] at hv
        rw [tree_list, tree_list]
        exact congrArg Tree.list (List.map_congr_left fun x hx => ih hle (hv x hx))
      | dict ref =>
        rw [nestedWithin, List.all_eq_true] at hv
        rw [tree_dict, tree_dict]
        exact congrArg Tree.dict
          (List.map_congr_left fun e he => congrArg (e.1, ·) (ih hle (hv e he)))
      | _ => rfl

theorem child?_tree (h : Heap) (n : Nat) (v : Value) (s : Selector) :
    (h.tree (n + 1) v).child? s = (h.child? v s).map (h.tree n) := by
  cases v with
  | list ref =>
    cases s with
    | position i =>
      rw [tree_list, Tree.child?, List.getElem?_map, Array.getElem?_toList]
      rfl
    | key k => rfl
  | dict ref =>
    cases s with
    | position i => rfl
    | key k => exact Table.lookup_map_snd (h.tree n) (h.dict ref).entries k
  | _ => cases s <;> rfl

-- The parts of a value that is written out are those that paths lead to, written out to the
-- levels that are left.
theorem follow?_tree (h : Heap) {n : Nat} {path : List Selector} (hpath : path.length ≤ n)
    (v : Value) :
    (h.tree n v).follow? path = (h.follow? path v).map (h.tree (n - path.length)) := by
  induction path generalizing n v with
  | nil => rfl
  | cons s path ih =>
    cases n with
    | zero => exact absurd hpath (Nat.not_succ_le_zero _)
    | succ n =>
      have hle : path.length ≤ n := Nat.le_of_succ_le_succ hpath
      rw [Tree.follow?, child?_tree, follow?]
      cases h.child? v s with
      | none => rfl
      | some c =>
        rw [Option.map_some, Option.bind_some, Option.bind_some, ih hle, List.length_cons,
          Nat.add_sub_add_right]

end Heap

-- A text that is part of another one.
def Occurs (part whole : String) : Prop :=
  ∃ before after, whole = before ++ part ++ after

namespace Occurs

variable {part middle whole : String}

theorem refl (part : String) : Occurs part part :=
  ⟨"", "", by simp⟩

theorem trans (h : Occurs part middle) (h' : Occurs middle whole) : Occurs part whole := by
  obtain ⟨b, a, rfl⟩ := h
  obtain ⟨b', a', rfl⟩ := h'
  exact ⟨b' ++ b, a ++ a', by simp only [String.append_assoc]⟩

theorem between (before part after : String) : Occurs part (before ++ part ++ after) :=
  ⟨before, after, rfl⟩

theorem intercalate {parts : List String} (h : part ∈ parts) (separator : String) :
    Occurs part (separator.intercalate parts) := by
  induction parts with
  | nil => cases h
  | cons p parts ih =>
    cases parts with
    | nil =>
      rw [List.mem_singleton.mp h, String.intercalate_singleton]
      exact refl p
    | cons q parts =>
      rw [String.intercalate_cons_cons]
      rcases List.mem_cons.mp h with rfl | hrest
      · exact ⟨"", separator ++ separator.intercalate (q :: parts), by
          simp only [String.empty_append, String.append_assoc]⟩
      · refine (ih hrest).trans ⟨p ++ separator, "", ?_⟩
        simp only [String.append_empty]

end Occurs

namespace Tree

theorem occurs_child {t u : Tree} {s : Selector} (h : t.child? s = some u) :
    Occurs u.inner t.inner := by
  cases t with
  | leaf l => cases s <;> cases h
  | list items =>
    cases s with
    | key k => cases h
    | position i =>
      have hitem : u.inner ∈ items.map inner := List.mem_map_of_mem (List.mem_of_getElem? h)
      rw [inner_list]
      exact (Occurs.intercalate hitem ", ").trans (Occurs.between "[" _ "]")
  | dict entries =>
    cases s with
    | position i => cases h
    | key k =>
      have hentry : "\"" ++ k ++ "\": " ++ u.inner ∈
          entries.map fun e => "\"" ++ e.1 ++ "\": " ++ e.2.inner := by
        obtain ⟨before, after, hentries, -⟩ := List.lookup_eq_some_iff.mp h
        rw [hentries]
        exact List.mem_map.mpr ⟨(k, u), List.mem_append_right before List.mem_cons_self, rfl⟩
      have hvalue : Occurs u.inner ("\"" ++ k ++ "\": " ++ u.inner) :=
        ⟨"\"" ++ k ++ "\": ", "", by simp⟩
      rw [inner_dict]
      exact (hvalue.trans (Occurs.intercalate hentry ", ")).trans (Occurs.between "\x7b" _ "\x7d")

theorem occurs_follow {t u : Tree} {path : List Selector} (h : t.follow? path = some u) :
    Occurs u.inner t.inner := by
  induction path generalizing t with
  | nil =>
    cases h
    exact .refl _
  | cons s path ih =>
    obtain ⟨c, hc, hu⟩ := Option.bind_eq_some_iff.mp h
    exact (ih hu).trans (occurs_child hc)

end Tree

namespace Heap

theorem text_tree_of_isCollection (h : Heap) (n : Nat) {v : Value} (hv : v.isCollection = true) :
    (h.tree (n + 1) v).text = (h.tree (n + 1) v).inner := by
  cases v with
  | list ref => rfl
  | dict ref => rfl
  | _ => cases hv

theorem tree_str (h : Heap) (n : Nat) (s : String) : h.tree n (.str s) = .leaf (.str s) := by
  cases n <;> rfl

-- A text inside a collection is quoted where it is shown.
theorem occurs_quoted (h : Heap) {v : Value} {path : List Selector} {s : String} {n : Nat}
    (hne : path ≠ []) (hpath : path.length ≤ n + 1) (hs : h.follow? path v = some (.str s)) :
    Occurs ("\"" ++ s ++ "\"") (h.tree (n + 1) v).text := by
  have hcollection : v.isCollection = true := by
    cases path with
    | nil => exact absurd rfl hne
    | cons first rest =>
      obtain ⟨c, hc, -⟩ := child?_of_follow? hs
      exact isCollection_of_child? hc
  have htree := follow?_tree h hpath v
  rw [hs, Option.map_some, tree_str] at htree
  rw [text_tree_of_isCollection h n hcollection]
  exact Tree.occurs_follow htree

-- What is shown of a value is the text of the value written out, with all collections at level 64
-- left out. Texts are quoted inside of collections.
theorem display_is_exact (h : Heap) (v : Value) :
    (∀ m, 64 ≤ m →
      h.display v = ((h.tree m v).cut 64).text ∧ h.toJson v = ((h.tree m v).cut 64).json) ∧
    (∀ m path, path.length ≤ m →
      (h.tree m v).follow? path = (h.follow? path v).map (h.tree (m - path.length))) ∧
    (h.nestedWithin 64 v = true → ∀ m, 64 ≤ m →
      (h.tree m v).isWhole = true ∧ h.display v = (h.tree m v).text ∧
        h.toJson v = (h.tree m v).json) ∧
    (∀ s, v = .str s → h.display v = s) ∧
    (∀ path s, path ≠ [] → path.length ≤ 64 → h.follow? path v = some (.str s) →
      Occurs ("\"" ++ s ++ "\"") (h.display v)) := by
  have htext : h.display v = (h.tree 64 v).text := h.displayTo_eq_text 64 v
  have hjson : h.toJson v = (h.tree 64 v).json := h.toJsonTo_eq_json 64 v
  refine ⟨?_, ?_, ?_, ?_, ?_⟩
  · intro m hm
    rw [h.cut_tree hm]
    exact ⟨htext, hjson⟩
  · intro m path hpath
    exact h.follow?_tree hpath v
  · intro hv m hm
    rw [tree_of_nestedWithin hm hv]
    exact ⟨(h.isWhole_tree 64 v).trans hv, htext, hjson⟩
  · rintro s rfl
    rfl
  · intro path s hne hpath hs
    rw [htext]
    exact h.occurs_quoted hne hpath hs

-- A list of a text and itself, and a list of a text.
def spiral : Heap :=
  { Heap.empty with lists := #[#[.str "a", .list 0], #[.str "b"]] }

theorem spiral_is_displayed :
    spiral.display (.list 0) = ((spiral.tree 100 (.list 0)).cut 64).text ∧
    spiral.toJson (.list 0) = ((spiral.tree 100 (.list 0)).cut 64).json ∧
    Occurs "\"a\"" (spiral.display (.list 0)) ∧
    spiral.display (.list 1) = "[\"b\"]" ∧
    spiral.toJson (.list 1) = .array [.str "b"] := by
  obtain ⟨hcut, -, -, -, hquoted⟩ := display_is_exact spiral (.list 0)
  obtain ⟨-, -, hwhole, -, -⟩ := display_is_exact spiral (.list 1)
  have hshallow := hwhole rfl 64 (Nat.le_refl 64)
  refine ⟨(hcut 100 (by decide)).1, (hcut 100 (by decide)).2, ?_, ?_, ?_⟩
  · exact hquoted [.position 1, .position 0] "a" (by simp) (by decide) rfl
  · exact hshallow.2.1.trans (by decide)
  · exact hshallow.2.2.trans rfl

end Heap

end Parlance
