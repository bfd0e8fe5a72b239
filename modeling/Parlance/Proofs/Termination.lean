import Parlance.Host.Local
import Parlance.Proofs.Accepted
import Parlance.Proofs.Discipline.Run

namespace Parlance

-- Expressions that send nothing, and in which nothing can crash unless that is foreseen.
def Expr.Silent (crashing : Prop) (e : Expr) : Prop :=
  ∀ x ∈ e.parts, x.callName? ≠ some Builtin.send.name ∧ (x.mayCrash = true → crashing)

-- Statements that never go back to an earlier one, and whose expressions are silent.
def Stmt.Straight (crashing : Prop) (s : Stmt) : Prop :=
  ∀ t ∈ s.parts, t.isLoop = false ∧ ∀ e ∈ t.expressions, e.Silent crashing

namespace Stmt.Straight

variable {crashing : Prop} {s t : Stmt} {body : List Stmt}

theorem of_mem_body (h : s.Straight crashing) (hbody : body ∈ s.bodies) (ht : t ∈ body) :
    t.Straight crashing :=
  fun u hu => h u (parts_subset hbody ht u hu)

theorem silent (h : s.Straight crashing) {e : Expr} (he : e ∈ s.operands) :
    e.Silent crashing := by
  obtain ⟨t, ht, hmem⟩ := exists_part_of_mem_operands he
  exact (h t ht).2 e hmem

end Stmt.Straight

-- An end with success or with a failure, or with a crash where one is foreseen.
def Outcome.Ends {α : Type} (crashing : Prop) : Outcome α → Prop
  | .ok _ _ => True
  | .error (.fault _) _ => True
  | .error .crash _ => crashing
  | .error .outOfFuel _ => False

def Outcome.crashes {α : Type} : Outcome α → Bool
  | .error .crash _ => true
  | _ => false

-- The fuel for something of a size, in a frame of some depth. Functions are called from frames
-- that are not too deep only, and no function has a size of more than `limit`.
def needed (limit depth size : Nat) : Nat :=
  (Eval.callDepth + 1 - depth) * (limit + 2) + size + 1

theorem needed_deeper (limit depth size : Nat) :
    needed limit (depth + 1) size ≤ needed limit depth size := by
  have hle : Eval.callDepth + 1 - (depth + 1) ≤ Eval.callDepth + 1 - depth := by omega
  have hmul := Nat.mul_le_mul_right (limit + 2) hle
  unfold needed
  omega

-- A call has the fuel for its function one frame further down.
theorem needed_call {limit depth size : Nat} (hdepth : depth + 1 ≤ Eval.callDepth)
    (hsize : size ≤ limit) : needed limit (depth + 1) size + 2 ≤ needed limit depth 0 := by
  have hsucc : Eval.callDepth + 1 - depth = Eval.callDepth + 1 - (depth + 1) + 1 := by omega
  unfold needed
  rw [hsucc, Nat.succ_mul]
  omega

-- Programs for which there is enough fuel. A context is the depth of a frame.
def descent (limit : Nat) (crashing : Prop) : Discipline Nat where
  expr n depth e := e.Silent crashing ∧ needed limit depth (sizeOf e) ≤ n
  stmt n depth s depth' := depth' = depth ∧ s.Straight crashing ∧ sizeOf s ≤ limit ∧
    needed limit depth (sizeOf s) ≤ n
  call n depth := needed limit depth 0 ≤ n
  inside _ depth := depth + 1
  project depth _ := depth + 1
  holds _ depth env w := w.frames.depth env = depth ∧ ∀ ref, (w.heap.client ref).held ≠ true
  func f _ := f.definition.Straight crashing ∧ sizeOf f.definition ≤ limit
  signal _ _ := True
  ends _ := True
  allowed s := s ≠ .outOfFuel ∧ (s = .crash → crashing)

namespace descent

variable {limit n depth : Nat} {crashing : Prop}

-- What is smaller needs one unit of fuel less, also if it is evaluated one frame down.
theorem needed_lt {size size' : Nat} (hlt : size' < size) (h : needed limit depth size ≤ n + 1) :
    needed limit depth size' ≤ n ∧ needed limit (depth + 1) size' ≤ n := by
  have hdeeper := needed_deeper limit depth size'
  have hless : needed limit depth size' + 1 ≤ needed limit depth size := by
    unfold needed
    omega
  omega

theorem block {s : Stmt} {depth' : Nat} 
    (h : (descent limit crashing).stmt (n + 1) depth s depth') {body : List Stmt}
    (hbody : body ∈ s.blocks) : (descent limit crashing).Block n (depth + 1) body := by
  obtain ⟨_, hstraight, hsize, hfuel⟩ := h
  have hmem := Stmt.mem_bodies_of_mem_blocks hbody
  refine .of_forall fun t ht => ?_
  have hlt := Stmt.sizeOf_lt_of_mem_bodies hmem ht
  exact ⟨rfl, hstraight.of_mem_body hmem ht, by omega, (needed_lt hlt hfuel).2⟩

theorem enters {f : Function} {env : Nat} {w : World}
    (hf : f.definition.Straight crashing ∧ sizeOf f.definition ≤ limit ∨ f = idle)
    (hcall : needed limit depth 0 ≤ n + 1) (hw : (descent limit crashing).holds none depth env w)
    (hdepth : depth + 1 ≤ Eval.callDepth) :
    (descent limit crashing).Enters n f env w (depth + 1) (depth + 1) where
  start := by
    refine ⟨?_, hw.2⟩
    rw [← hw.1]
    exact Frames.depth_child_self w.frames env
  default p hp e he := by
    rcases hf with ⟨hstraight, hsize⟩ | rfl
    · have hlt := Function.sizeOf_lt_of_default hp he
      have hneeded := needed_call hdepth (Nat.le_of_lt (Nat.lt_of_lt_of_le hlt hsize))
      refine ⟨(hstraight _ (Stmt.mem_parts_self _)).2 e ?_, by omega⟩
      exact List.mem_filterMap.mpr ⟨p, hp, he⟩
    · cases hp
  param p _ t v ht := ⟨(Frames.depth_define t.frames _ _ p.name v).trans ht.1, ht.2⟩
  bound _ _ ht _ := ht
  body := by
    cases n with
    | zero =>
      have hneeded := needed_call hdepth (Nat.zero_le limit)
      omega
    | succ n =>
      refine .of_forall fun s hs => ?_
      rcases hf with ⟨hstraight, hsize⟩ | rfl
      · have hmem : f.body ∈ f.definition.bodies := List.mem_singleton.mpr rfl
        have hlt := Stmt.sizeOf_lt_of_mem_bodies hmem hs
        have hneeded := needed_call hdepth (Nat.le_of_lt (Nat.lt_of_lt_of_le hlt hsize))
        exact ⟨rfl, hstraight.of_mem_body hmem hs, by omega, by omega⟩
      · cases hs
  ends _ _ := trivial

-- Without fuel there is nothing to evaluate, and there are no loops, no requests and no clients
-- that are held.
theorem waits_empty (h : (descent limit crashing).Waits) : False := by
  cases h with
  | expr he => exact Nat.not_succ_le_zero _ he.2
  | stmt hs => exact Nat.not_succ_le_zero _ hs.2.2.2
  | call hcall => exact Nat.not_succ_le_zero _ hcall
  | loop hs => cases (hs.2.1 _ (Stmt.mem_parts_self _)).1
  | send he hname => exact (he.1 _ (Expr.mem_parts_self _)).1 hname
  | close he hname hc hheld => exact hc.2 _ hheld

theorem allowed_fault (f : Fault) : (descent limit crashing).allowed (.fault f) :=
  ⟨by rintro ⟨⟩, by rintro ⟨⟩⟩

theorem lawful (limit : Nat) (crashing : Prop) : (descent limit crashing).Lawful where
  operand he x hx := by
    refine ⟨fun t ht => he.1 t (Expr.parts_subset_of_operand hx t ht), ?_⟩
    exact (needed_lt (Expr.sizeOf_lt_of_mem_operands hx) he.2).1
  projection {n c bracket iterator ty initial iterable projection} he := by
    have hmem : projection ∈
        (Expr.comprehension bracket iterator ty initial iterable projection).children := by
      simp [Expr.children]
    refine ⟨fun t ht => he.1 t (Expr.parts_subset hmem t ht), ?_⟩
    exact (needed_lt (Expr.sizeOf_lt_of_mem_children hmem) he.2).2
  calling {n c e name} he _ := by
    have hpos : 0 < sizeOf e := by cases e <;> simp +arith
    exact (needed_lt hpos he.2).1
  value hs e he := ⟨hs.2.1.silent he, (needed_lt (Stmt.sizeOf_lt_of_mem_operands he) hs.2.2.2).1⟩
  block hs body hbody := block hs hbody
  stable h hm := ⟨(hm.frames.depth _).trans h.1, fun ref hr => h.2 ref (hm.held ref hr)⟩
  opens {n k c s c' env w} _ _ _ h := by
    refine ⟨?_, h.2⟩
    rw [← h.1]
    exact Frames.depth_child_self w.frames env
  iterates {n k c d iterable body c' env w} v _ h := by
    refine ⟨?_, h.2⟩
    rw [← h.1]
    exact (Frames.depth_define _ _ _ _ v).trans (Frames.depth_child_self w.frames env)
  projects {n k c bracket iterator ty initial iterable projection env w} v _ h := by
    refine ⟨?_, h.2⟩
    rw [← h.1]
    exact (Frames.depth_define _ _ _ _ v).trans (Frames.depth_child_self w.frames env)
  follows hs _ _ _ h := hs.1 ▸ h
  declares {n k c s c' env w x} v hs _ h :=
    ⟨hs.1 ▸ (Frames.depth_define w.frames _ _ x v).trans h.1, h.2⟩
  defines hs h := ⟨⟨hs.2.1, hs.2.2.1⟩, hs.1 ▸ h⟩
  enters hcall h hf hdepth := ⟨_, _, enters hf hcall h (h.1 ▸ hdepth)⟩
  serves he hname _ := absurd hname (he.1 _ (Expr.mem_parts_self _)).1
  waits h := (waits_empty h).elim
  crashes he hcrash := ⟨by rintro ⟨⟩, fun _ => (he.1 _ (Expr.mem_parts_self _)).2 hcrash⟩
  ordinary {s} hs := by
    cases s with
    | fault f => exact allowed_fault f
    | crash | outOfFuel => cases hs
  fails _ := allowed_fault _
  placed _ _ _ := allowed_fault _

theorem ends_of_meets {α : Type} {env : Nat} {new : String → Prop} {w : World}
    {Q : α → World → Prop} {r : Outcome α}
    (h : (descent limit crashing).Meets env new w Q r) : r.Ends crashing := by
  cases r with
  | ok a t => trivial
  | error s t =>
    obtain ⟨-, -, hfuel, hcrash⟩ := h
    cases s with
    | outOfFuel => exact absurd rfl hfuel
    | crash => exact hcrash rfl
    | fault f => trivial

theorem block_of_program {p : Program} (hstraight : ∀ s ∈ p, s.Straight crashing) :
    (descent (sizeOf p) crashing).Block (needed (sizeOf p) 0 (sizeOf p)) 0 p := by
  refine .of_forall fun s hs => ?_
  have hlt : sizeOf s < sizeOf p := List.sizeOf_lt_of_mem hs
  refine ⟨rfl, hstraight s hs, Nat.le_of_lt hlt, ?_⟩
  unfold needed
  omega

end descent

-- A crash is reported as a failure.
theorem Outcome.Ends.guarded {crashing : Prop} {body : Exec Unit} {w : World}
    (h : Outcome.Ends crashing (body w)) : Outcome.Ends False (guarded body w) := by
  unfold Parlance.guarded
  cases hbody : body w with
  | ok a t => trivial
  | error s t =>
    rw [hbody] at h
    cases s with
    | fault f => trivial
    | crash => trivial
    | outOfFuel => exact h

theorem Heap.arithmetic_crashes_iff (h : Heap) (op : TokenKind) (a b : Value) :
    h.arithmetic op a b = .error .crash ↔ op = .star ∧ h.Overflows a b := by
  constructor
  · intro hcrash
    cases hop : op.isArithmetic with
    | true =>
      rcases arithmetic_error hop hcrash with hs | ⟨-, hstar, hlarge⟩
      · cases hs
      · exact ⟨hstar, hlarge⟩
    | false =>
      rcases arithmetic_of_not hop hcrash with hs | hs
      · cases hs
      · cases hs
  · rintro ⟨rfl, n, ⟨s, ⟨rfl, rfl⟩ | ⟨rfl, rfl⟩, hlarge⟩ | ⟨ref, ⟨rfl, rfl⟩ | ⟨rfl, rfl⟩, hlarge⟩⟩
    · exact if_pos hlarge
    · exact if_pos hlarge
    · exact if_pos hlarge
    · exact if_pos hlarge

theorem Builtin.unordered_of_sorted_crashes {items : List Value}
    (h : sorted items = .error .crash) : items.any isUnordered = true := by
  rcases sorted_error h with hs | ⟨-, hunordered⟩
  · cases hs
  · exact hunordered

-- The run of a program without loops and requests, with the fuel that it needs.
theorem straight_run {p : Program} (hloop : ∀ s ∈ Program.parts p, s.isLoop = false)
    (hsend : ∀ e ∈ Program.expressions p, e.callName? ≠ some Builtin.send.name)
    (console : Console) (options : Options) {fuel : Nat}
    (hfuel : needed (sizeOf p) 0 (sizeOf p) ≤ fuel) :
    Outcome.Ends (∃ e ∈ Program.expressions p, e.mayCrash = true)
        (runStatements fuel p (World.fresh console options)) ∧
      runStatements fuel p (World.fresh console options) =
        runStatements (needed (sizeOf p) 0 (sizeOf p)) p (World.fresh console options) := by
  generalize hcrashing : (∃ e ∈ Program.expressions p, e.mayCrash = true) = crashing
  have hstraight : ∀ s ∈ p, s.Straight crashing := by
    intro s hs t ht
    have hmem : t ∈ Program.parts p := Stmt.mem_partsOf.mpr ⟨s, hs, ht⟩
    refine ⟨hloop t hmem, fun e he x hx => ?_⟩
    have hx := Program.mem_expressions hmem he hx
    exact ⟨hsend x hx, fun hcrash => hcrashing ▸ ⟨x, hx, hcrash⟩⟩
  have L := descent.lawful (sizeOf p) crashing
  have hagrees := Discipline.evaluators_agree L (fun h => h.1 rfl) hfuel
  have hdepth : (descent (sizeOf p) crashing).holds none 0 globals (World.fresh console options) :=
    ⟨rfl, fun _ => by rintro ⟨⟩⟩
  have hrun := hagrees.run L (descent.block_of_program hstraight)
    (fun _ _ _ _ => descent.allowed_fault _) hdepth (Discipline.inv_fresh _ console options)
  have hsame : runStatements fuel p (World.fresh console options) =
      runStatements (needed (sizeOf p) 0 (sizeOf p)) p (World.fresh console options) := hrun.same
  rw [hsame]
  exact ⟨descent.ends_of_meets hrun.meets, rfl⟩

-- A program without loops that sends nothing comes to an end whatever its input is and its host
-- answers, and with one outcome for all fuel above a bound that depends on the text only. It
-- ends with success or with a failure, or with a crash, if there is a repetition or sorting in
-- it. A repetition crashes exactly if it needs more memory than can be addressed, and sorting
-- does so for values only that stand in no order. For who runs the text a crash is a failure too.
theorem straight_runs_end {p : Program} (hloop : ∀ s ∈ Program.parts p, s.isLoop = false)
    (hsend : ∀ e ∈ Program.expressions p, e.callName? ≠ some Builtin.send.name) :
    (∃ bound, ∀ console options fuel, bound ≤ fuel →
      Outcome.Ends (∃ e ∈ Program.expressions p, e.mayCrash = true)
        (runStatements fuel p (World.fresh console options)) ∧
      runStatements fuel p (World.fresh console options) =
        runStatements bound p (World.fresh console options) ∧
      ∀ source, compile source = .ok p →
        Outcome.Ends False (execute fuel source (World.fresh console options))) ∧
    (∀ (h : Heap) op a b,
      h.arithmetic op a b = .error .crash ↔ op = .star ∧ h.Overflows a b) ∧
    ∀ items, Builtin.sorted items = .error .crash → items.any Builtin.isUnordered = true := by
  refine ⟨⟨needed (sizeOf p) 0 (sizeOf p), fun console options fuel hfuel => ?_⟩,
    Heap.arithmetic_crashes_iff, fun _ => Builtin.unordered_of_sorted_crashes⟩
  obtain ⟨hends, hsame⟩ := straight_run hloop hsend console options hfuel
  refine ⟨hends, hsame, fun source hsource => ?_⟩
  rw [execute, hsource]
  exact hends.guarded

-- Endless recursion, a list that grows while a loop runs over it, and one that holds itself.
def endless : String :=
  "var a: list = []
  func f(n: number = f(1)) -> number \x7b return f(n) \x7d
  append(a, a)
  for (x: list in a) \x7b append(a, [for (y: list in x) -> y == a]) \x7d
  f(len(a))"

set_option maxRecDepth 10000 in
theorem endless_runs_end :
    ∃ p, parse endless = .ok p ∧ (∀ s ∈ Program.parts p, s.isLoop = false) ∧
      (∀ e ∈ Program.expressions p, e.callName? ≠ some Builtin.send.name) ∧
      (∀ e ∈ Program.expressions p, e.mayCrash = false) ∧
      ∃ bound, ∀ console options fuel, bound ≤ fuel →
        Outcome.Ends False (runStatements fuel p (World.fresh console options)) := by
  obtain ⟨p, hp, hloop, hsend, hcrash⟩ : ∃ p, parse endless = .ok p ∧
      (∀ s ∈ Program.parts p, s.isLoop = false) ∧
      (∀ e ∈ Program.expressions p, e.callName? ≠ some Builtin.send.name) ∧
      ∀ e ∈ Program.expressions p, e.mayCrash = false :=
    exists_of_any (by decide +kernel)
  obtain ⟨⟨bound, hbound⟩, -⟩ := straight_runs_end hloop hsend
  refine ⟨p, hp, hloop, hsend, hcrash, bound, fun console options fuel hfuel => ?_⟩
  have hnever : (∃ e ∈ Program.expressions p, e.mayCrash = true) = False := by
    refine eq_false ?_
    rintro ⟨e, he, hmay⟩
    cases (hcrash e he).symm.trans hmay
  exact hnever ▸ (hbound console options fuel hfuel).1

-- A text that would need more bytes than there are addresses.
def oversized : String :=
  "print(\"ab\" * 9223372036854775807)"

theorem oversized_crashes :
    ∃ p, parse oversized = .ok p ∧ (∀ s ∈ Program.parts p, s.isLoop = false) ∧
      (∀ e ∈ Program.expressions p, e.callName? ≠ some Builtin.send.name) ∧
      Outcome.crashes (runStatements 20 p (World.fresh (.captured "") ⟨false, .isolated⟩)) =
        true :=
  exists_of_any (by decide +kernel)

end Parlance
