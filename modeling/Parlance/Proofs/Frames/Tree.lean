import Parlance.Eval.Expr
import Parlance.Proofs.Frames

namespace Parlance.Frames

-- What can be done to a frame: a new one is put under it, a name is bound in it, or a name that
-- it can see is bound again.
inductive Operation where
  | child (env : Nat)
  | define (env : Nat) (name : String) (v : Value)
  | assign (env : Nat) (name : String) (v : Value)

def Operation.env : Operation → Nat
  | child env | define env _ _ | assign env _ _ => env

-- An assignment to a name that cannot be seen leaves everything as it is.
def perform (fs : Frames) : Operation → Frames
  | .child env => fs.child env
  | .define env name v => fs.define env name v
  | .assign env name v => (fs.assign? env name v).getD fs

-- The frames that come about from the global one.
inductive Reached : Frames → Prop
  | root : Reached Frames.root
  | step {fs : Frames} {op : Operation} :
    Reached fs → op.env < fs.size → Reached (fs.perform op)

-- Every parent stands before its frame and is one level higher.
structure Graded (fs : Frames) : Prop where
  above : ∀ {i parent}, fs.parent? i = some parent → parent < i ∧ fs.depth i = fs.depth parent + 1
  top : ∀ {i}, fs.parent? i = none → fs.depth i = 0

theorem graded_root : Graded root where
  above {i parent} h := by
    cases i with
    | zero => cases h
    | succ i => cases h
  top {i} _ := by
    cases i with
    | zero => rfl
    | succ i => rfl

namespace Graded

variable {fs gs : Frames}

theorem of_eq (h : fs.Graded) (hparent : ∀ i, gs.parent? i = fs.parent? i)
    (hdepth : ∀ i, gs.depth i = fs.depth i) : gs.Graded where
  above {i parent} hi := by
    rw [hdepth, hdepth]
    exact h.above (hparent i ▸ hi)
  top {i} hi := by
    rw [hdepth]
    exact h.top (hparent i ▸ hi)

theorem child (h : fs.Graded) {env : Nat} (henv : env < fs.size) : (fs.child env).Graded where
  above {i parent} hi := by
    have hlt : i < fs.size + 1 := size_child fs env ▸ lt_size_of_parent? hi
    by_cases hnew : i = fs.size
    · subst hnew
      rw [parent?_child_self] at hi
      cases hi
      rw [depth_child_self, depth_child_of_lt fs env henv]
      exact ⟨henv, rfl⟩
    · have hold : i < fs.size := by omega
      rw [parent?_child_of_lt fs env hold] at hi
      obtain ⟨hparent, hdepth⟩ := h.above hi
      rw [depth_child_of_lt fs env hold, depth_child_of_lt fs env (Nat.lt_trans hparent hold)]
      exact ⟨hparent, hdepth⟩
  top {i} hi := by
    rcases Nat.lt_trichotomy i fs.size with hold | rfl | hout
    · rw [depth_child_of_lt fs env hold]
      exact h.top (parent?_child_of_lt fs env hold ▸ hi)
    · rw [parent?_child_self] at hi
      cases hi
    · have hsize : (fs.child env).all.size ≤ i := by
        rw [← size, size_child]
        exact hout
      rw [Frames.depth, Array.getElem?_eq_none hsize]

theorem define (h : fs.Graded) (env : Nat) (name : String) (v : Value) :
    (fs.define env name v).Graded :=
  h.of_eq (fun i => parent?_define fs env i name v) fun i => depth_define fs env i name v

theorem perform (h : fs.Graded) {op : Operation} (hop : op.env < fs.size) :
    (fs.perform op).Graded := by
  cases op with
  | child env => exact h.child hop
  | define env name v => exact h.define env name v
  | assign env name v =>
    rw [Frames.perform, assign?]
    cases fs.owner? name env with
    | none => exact h
    | some owner => exact h.define owner name v

end Graded

theorem Reached.graded {fs : Frames} (h : fs.Reached) : fs.Graded := by
  induction h with
  | root => exact graded_root
  | step _ hop ih => exact ih.perform hop

-- The frames on the way from a frame up to the one that has no parent.
inductive Way (fs : Frames) : Nat → List Nat → Prop
  | top {env : Nat} : env < fs.size → fs.parent? env = none → Way fs env [env]
  | up {env parent : Nat} {above : List Nat} :
    fs.parent? env = some parent → Way fs parent above → Way fs env (env :: above)

section

variable {fs : Frames} {t : Nat}

-- A chain leaves out no frame, since every parent stands before its frame.
theorem Graded.way_chain (h : fs.Graded) (ht : t < fs.size) : fs.Way t (fs.chain t) := by
  induction t using Nat.strongRecOn with
  | ind t ih =>
    rw [chain_of_lt fs ht]
    cases hp : fs.parent? t with
    | none => exact .top ht hp
    | some parent =>
      obtain ⟨hlt, -⟩ := h.above hp
      simp only [hlt, ite_true]
      exact .up hp (ih parent hlt (Nat.lt_trans hlt ht))

-- On the way up the depths count down.
theorem Graded.depths_of_way {way : List Nat} (h : fs.Graded) (hway : fs.Way t way) :
    way.map fs.depth = (List.range (fs.depth t + 1)).reverse := by
  induction hway with
  | top _ hp =>
    rw [h.top hp, List.map_singleton, h.top hp]
    rfl
  | up hp _ ih =>
    rw [List.map_cons, ih, (h.above hp).2, ← List.reverse_concat, ← List.range_succ]

theorem Graded.length_chain (h : fs.Graded) (ht : t < fs.size) :
    (fs.chain t).length = fs.depth t + 1 := by
  have hdepths := congrArg List.length (h.depths_of_way (h.way_chain ht))
  rwa [List.length_map, List.length_reverse, List.length_range] at hdepths

theorem nodup_chain (fs : Frames) (t : Nat) : (fs.chain t).Nodup := by
  induction t using Nat.strongRecOn with
  | ind t ih =>
    by_cases ht : t < fs.size
    · rw [chain_of_lt fs ht]
      cases fs.parent? t with
      | none => exact List.nodup_cons.mpr ⟨List.not_mem_nil, List.nodup_nil⟩
      | some parent =>
        by_cases hlt : parent < t
        · simp only [hlt, ite_true]
          refine List.nodup_cons.mpr ⟨fun hmem => ?_, ih parent hlt⟩
          exact Nat.not_le_of_lt hlt (le_of_mem_chain hmem)
        · simp only [hlt, ite_false]
          exact List.nodup_cons.mpr ⟨List.not_mem_nil, List.nodup_nil⟩
    · rw [chain_of_size_le fs (Nat.le_of_not_lt ht)]
      exact List.nodup_nil

theorem Graded.chain_of_way {way : List Nat} (h : fs.Graded) (hway : fs.Way t way) :
    way = fs.chain t := by
  induction hway with
  | top ht hp =>
    rw [chain_of_lt fs ht, hp]
  | up hp _ ih =>
    rw [chain_of_lt fs (lt_size_of_parent? hp), hp]
    simp only [(h.above hp).1, ite_true, ih]

-- The frame in which a name is found: the first one on the way up that binds it.
def Resolves (fs : Frames) (env : Nat) (name : String) (owner : Nat) : Prop :=
  ∃ before after, fs.Way env (before ++ owner :: after) ∧
    (∀ i ∈ before, ¬ fs.Binds i name) ∧ fs.Binds owner name

theorem Graded.resolves_iff (h : fs.Graded) (name : String) (owner : Nat) :
    fs.Resolves t name owner ↔ fs.owner? name t = some owner := by
  rw [owner?_eq_find?, List.find?_eq_some_iff_append]
  constructor
  · rintro ⟨before, after, hway, hbefore, howner⟩
    refine ⟨howner, before, after, (h.chain_of_way hway).symm, fun i hi => ?_⟩
    exact Bool.not_eq_true' _ ▸ Bool.eq_false_iff.mpr (hbefore i hi)
  · rintro ⟨howner, before, after, hchain, hbefore⟩
    have hmem : owner ∈ fs.chain t := by
      rw [hchain]
      exact List.mem_append_right _ List.mem_cons_self
    refine ⟨before, after, hchain ▸ h.way_chain (lt_size_of_mem_chain hmem), fun i hi => ?_, howner⟩
    exact Bool.eq_false_iff.mp (Bool.not_eq_true' _ ▸ hbefore i hi)

end

-- All is the same but for one name in one frame itself, which has the value `v`.
structure Overwritten (env : Nat) (name : String) (v : Value) (fs gs : Frames) : Prop where
  size : gs.size = fs.size
  parent : ∀ i, gs.parent? i = fs.parent? i
  depth : ∀ i, gs.depth i = fs.depth i
  binding : (gs.bindings env).get? name = some v
  others : ∀ i x, i ≠ env ∨ x ≠ name → (gs.bindings i).get? x = (fs.bindings i).get? x

theorem overwritten_define (fs : Frames) {env : Nat} (h : env < fs.size) (name : String)
    (v : Value) : Overwritten env name v fs (fs.define env name v) where
  size := size_define fs env name v
  parent i := parent?_define fs env i name v
  depth i := depth_define fs env i name v
  binding := by rw [bindings_define_self fs name v h, Table.get?_insert_self]
  others i x hne := by
    by_cases hi : i = env
    · subst hi
      rw [bindings_define_self fs name v h, Table.get?_insert_of_ne _ (hne.resolve_left (· rfl))]
    · rw [bindings_define_of_ne fs name v hi]

-- A lookup finds the first value on the way up.
theorem get?_eq_findSome? (fs : Frames) (t : Nat) (x : String) :
    fs.get? t x = (fs.visible t).findSome? fun table => table.get? x := by
  rw [get?, visible, owner?_eq_find?]
  induction fs.chain t with
  | nil => rfl
  | cons i rest ih =>
    rw [List.map_cons, List.findSome?_cons, List.find?_cons, Table.contains]
    cases hi : (fs.bindings i).get? x with
    | none => exact ih
    | some v => exact hi

theorem get?_eq_bind (fs : Frames) (t : Nat) (x : String) :
    fs.get? t x = (fs.owner? x t).bind fun owner => (fs.bindings owner).get? x := by
  rw [get?]
  cases fs.owner? x t <;> rfl

theorem get?_isSome_iff (fs : Frames) (t : Nat) (x : String) :
    (fs.get? t x).isSome ↔ (fs.owner? x t).isSome := by
  rw [get?_eq_bind]
  cases h : fs.owner? x t with
  | none => exact Iff.rfl
  | some owner =>
    have hbinds : ((fs.bindings owner).get? x).isSome := (binds_of_owner? h).2
    exact iff_of_true hbinds rfl

theorem assign?_eq_map (fs : Frames) (t : Nat) (x : String) (v : Value) :
    fs.assign? t x v = (fs.owner? x t).map fun owner => fs.define owner x v := by
  rw [assign?]
  cases fs.owner? x t <;> rfl

-- Where a name is found decides what is found after a change in one place.
theorem Overwritten.get?_of_ne {env u : Nat} {x : String} {v : Value} {fs gs : Frames} {y : String}
    (h : Overwritten env x v fs gs) (howner : gs.owner? y u = fs.owner? y u)
    (hne : fs.owner? y u ≠ some env ∨ y ≠ x) : gs.get? u y = fs.get? u y := by
  rw [get?_eq_bind, get?_eq_bind, howner]
  cases ho : fs.owner? y u with
  | none => rfl
  | some owner =>
    refine h.others owner y (hne.imp (fun hne heq => ?_) id)
    exact hne (by rw [ho, heq])

-- The nearest binding of a name is given a value. It is shared by all who find the name there.
structure Reassigned (t : Nat) (x : String) (v : Value) (fs gs : Frames) (owner : Nat) :
    Prop where
  nearest : fs.Resolves t x owner
  only : Overwritten owner x v fs gs
  found : gs.get? t x = some v
  names : ∀ u y, y ≠ x → gs.get? u y = fs.get? u y
  shared : ∀ u, fs.Resolves u x owner → gs.get? u x = some v
  apart : ∀ u, ¬ fs.Resolves u x owner → gs.get? u x = fs.get? u x

theorem Graded.reassigned {fs : Frames} (h : fs.Graded) {t owner : Nat} {x : String}
    (howner : fs.owner? x t = some owner) (v : Value) :
    Reassigned t x v fs (fs.define owner x v) owner := by
  have hover := overwritten_define fs (lt_size_of_binds (binds_of_owner? howner).2) x v
  -- No name is added, so every name is found where it was.
  have hsame : ∀ u y, (fs.define owner x v).owner? y u = fs.owner? y u := fun u y =>
    (keeps_assign howner v).owner? id u
  have hshared : ∀ u, fs.Resolves u x owner → (fs.define owner x v).get? u x = some v := by
    intro u hu
    rw [get?_eq_bind, hsame, (h.resolves_iff x owner).mp hu]
    exact hover.binding
  have hnearest := (h.resolves_iff x owner).mpr howner
  refine ⟨hnearest, hover, hshared t hnearest, fun u y hne => ?_, hshared, fun u hu => ?_⟩
  · exact hover.get?_of_ne (hsame u y) (.inr hne)
  · exact hover.get?_of_ne (hsame u x) (.inl fun ho => hu ((h.resolves_iff x owner).mpr ho))

-- A name is bound in a frame itself. Only those who look names up in that frame can tell.
structure Defined (t : Nat) (x : String) (v : Value) (fs gs : Frames) : Prop where
  only : Overwritten t x v fs gs
  found : gs.get? t x = some v
  names : ∀ u y, y ≠ x → gs.get? u y = fs.get? u y
  apart : ∀ u, t ∉ fs.chain u → gs.get? u x = fs.get? u x

theorem defined_define (fs : Frames) {t : Nat} (ht : t < fs.size) (x : String) (v : Value) :
    Defined t x v fs (fs.define t x v) := by
  have hover := overwritten_define fs ht x v
  have hkeeps := keeps_define fs t x v
  refine ⟨hover, ?_, fun u y hne => ?_, fun u hu => ?_⟩
  · have hchain := chain_of_lt (fs.define t x v) ((size_define fs t x v).symm ▸ ht)
    rw [get?_eq_findSome?, visible, hchain, List.map_cons, List.findSome?_cons, hover.binding]
  · exact hover.get?_of_ne (hkeeps.owner? hne u) (.inr hne)
  · -- No frame on the way up has changed.
    rw [get?_eq_findSome?, get?_eq_findSome?, visible, visible, hkeeps.chain]
    refine congrArg (List.findSome? _) (List.map_congr_left fun i hi => ?_)
    exact bindings_define_of_ne fs x v fun heq => hu (heq ▸ hi)

-- A new frame is empty, and what it sees is what the frame above it sees.
structure Opened (t : Nat) (fs gs : Frames) : Prop where
  size : gs.size = fs.size + 1
  parent : gs.parent? fs.size = some t
  empty : gs.bindings fs.size = Table.empty
  sees : ∀ x, gs.get? fs.size x = fs.get? t x
  others : ∀ u, u < fs.size → gs.bindings u = fs.bindings u ∧ gs.chain u = fs.chain u

theorem opened_child (fs : Frames) {t : Nat} (ht : t < fs.size) : Opened t fs (fs.child t) where
  size := size_child fs t
  parent := parent?_child_self fs t
  empty := bindings_child_self fs t
  sees x := by
    rw [get?_eq_bind, get?_eq_bind, owner?_child_self fs x ht]
    cases ho : fs.owner? x t with
    | none => rfl
    | some owner =>
      have hlt := lt_size_of_binds (binds_of_owner? ho).2
      rw [Option.bind_some, Option.bind_some, bindings_child_of_lt fs t hlt]
  others u hu := ⟨bindings_child_of_lt fs t hu, chain_child_of_lt fs t hu⟩

end Parlance.Frames

namespace Parlance

-- An assignment to a name changes the nearest binding of it, or stops and changes nothing.
theorem Eval.assign_name (ev : Evaluators) (env : Nat) (v : Value) (token : Token) (ty : Ty)
    (w : World) :
    Eval.assign ev env v (.name token ty) w =
      (w.frames.assign? env token.lexeme v).elim
        (.error (.fault (.runtimeAt (.undefinedVariable token.lexeme) token.line)) w)
        fun gs => .ok () { w with frames := gs } := by
  rw [Frames.assign?_eq_map]
  unfold Eval.assign
  simp only [Exec.bind_apply, Exec.get_apply]
  cases w.frames.owner? token.lexeme env with
  | none => rfl
  | some owner => rfl

theorem Eval.debug_eq (env : Nat) (w : World) :
    Eval.debug env [] w =
      .ok .void { w with
        console := w.console.write (w.options.host.printJson (.array
          (((w.frames.visible env).zip (List.range (w.frames.depth env + 1)).reverse).map
            fun frame => Eval.frameJson w.heap frame.1 frame.2)) ++ "\n") } := rfl

-- What a frame is among the frames around it.
structure Frames.TreeOfTables (fs : Frames) (t : Nat) : Prop where
  -- The depth is the number of frames above. All of these can be seen, each with its own depth.
  way : fs.Way t (fs.chain t)
  nodup : (fs.chain t).Nodup
  depth : (fs.chain t).length = fs.depth t + 1
  visible : (fs.visible t).length = fs.depth t + 1
  debug : ∀ w : World, w.frames = fs →
    Eval.debug t [] w =
      .ok .void { w with
        console := w.console.write (w.options.host.printJson (.array ((fs.chain t).map fun i =>
          .object [("depth", .int (fs.depth i)), ("bindings", .object
            ((fs.bindings i).entries.map fun e => (e.1, w.heap.toJson e.2)))])) ++ "\n") }
  -- A name has the first value that it has in a frame that can be seen.
  get : ∀ x, fs.get? t x = (fs.visible t).findSome? fun table => table.get? x
  -- It can be assigned to exactly if it has a value, and a program does just that.
  assign : ∀ x v, (fs.assign? t x v).isSome ↔ (fs.get? t x).isSome
  assigned : ∀ x v gs, fs.assign? t x v = some gs → ∃ owner, Reassigned t x v fs gs owner
  refused : ∀ x v, fs.assign? t x v = none → fs.perform (.assign t x v) = fs
  evaluated : ∀ (w : World) ev token ty v, w.frames = fs →
    Eval.assign ev t v (.name token ty) w =
      (fs.assign? t token.lexeme v).elim
        (.error (.fault (.runtimeAt (.undefinedVariable token.lexeme) token.line)) w)
        fun gs => .ok () { w with frames := gs }
  define : ∀ x v, Defined t x v fs (fs.define t x v)
  child : Opened t fs (fs.child t)

-- Frames that come about from the global one, by whatever is done to any of them, are a tree of
-- tables. A binding is shared by all the frames that find the name in the same place.
theorem frames_are_a_tree_of_tables {fs : Frames} (hfs : fs.Reached) {t : Nat}
    (ht : t < fs.size) : fs.TreeOfTables t where
  way := hfs.graded.way_chain ht
  nodup := fs.nodup_chain t
  depth := hfs.graded.length_chain ht
  visible := by rw [Frames.visible, List.length_map, hfs.graded.length_chain ht]
  debug w hw := by
    subst hw
    have hdepths := hfs.graded.depths_of_way (hfs.graded.way_chain ht)
    rw [Eval.debug_eq, ← hdepths, Frames.visible, List.zip_map', List.map_map]
    rfl
  get := fs.get?_eq_findSome? t
  assign x v := by
    rw [Frames.get?_isSome_iff, Frames.assign?_eq_map, Option.isSome_map]
  assigned x v gs h := by
    rw [Frames.assign?_eq_map] at h
    obtain ⟨owner, howner, rfl⟩ := Option.map_eq_some_iff.mp h
    exact ⟨owner, hfs.graded.reassigned howner v⟩
  refused x v h := by rw [Frames.perform, h, Option.getD_none]
  evaluated w ev token ty v hw := by
    subst hw
    exact Eval.assign_name ev t v token ty w
  define := fs.defined_define ht
  child := fs.opened_child ht

-- Two frames under the global one, of which the first binds the global name again, and one more
-- under that.
def shadowed : Frames :=
  (((((Frames.root.perform (.define 0 "x" (.int 1))).perform (.child 0)).perform
    (.child 0)).perform (.define 1 "x" (.int 2))).perform (.child 1))

theorem shadowed_is_a_tree_of_tables :
    shadowed.Reached ∧ 3 < shadowed.size ∧ shadowed.TreeOfTables 3 := by
  have hreached : shadowed.Reached :=
    .step (.step (.step (.step (.step .root (by decide)) (by decide)) (by decide)) (by decide))
      (by decide)
  exact ⟨hreached, by decide, frames_are_a_tree_of_tables hreached (by decide)⟩

end Parlance
