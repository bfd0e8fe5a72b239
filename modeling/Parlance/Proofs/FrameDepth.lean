import Parlance.Host.Local
import Parlance.Proofs.Accepted
import Parlance.Proofs.Discipline.Run
import Parlance.Proofs.Nesting
import Parlance.Proofs.Simulation

namespace Parlance

theorem Expr.levels_child {x e : Expr} (hx : x ∈ e.children) : x.levels ≤ e.levels := by
  have hmem : x ∈ e.beside ∨ x ∈ e.inner := by
    cases e <;> simp_all [children, operands, beside, inner]
  rcases hmem with hx | hx
  · exact levels_beside hx
  · exact Nat.le_of_lt (levels_inner hx)

-- What is evaluated for an expression or a statement takes no more levels than it does.
theorem Expr.levels_operand {x e : Expr} (hx : x ∈ e.operands) : x.levels ≤ e.levels := by
  rcases mem_children_of_mem_operands hx with hx | ⟨target, htarget, hx⟩
  · exact levels_child hx
  · exact Nat.le_trans (levels_child hx) (levels_child htarget)

theorem Stmt.levels_body {s t : Stmt} {body : List Stmt} (hbody : body ∈ s.bodies) (ht : t ∈ body) :
    t.levels < s.levels :=
  ((levels_le_iff.mp (Nat.le_refl _)).2 body hbody).2 t ht

theorem Stmt.levels_operand {s : Stmt} {e : Expr} (he : e ∈ s.operands) : e.levels ≤ s.levels := by
  have hbeside := (levels_le_iff.mp (Nat.le_refl s.levels)).1
  cases s with
  | function => cases he
  | each iterator iterable body => exact hbeside e (List.mem_append_right _ he)
  | par body line =>
    have hlt := levels_body (s := .par body line) List.mem_cons_self (Eval.mem_of_mem_workers he)
    have hworker : (Stmt.expression e).levels = max e.levels 0 := rfl
    omega
  | _ => exact hbeside e he

-- A call that is not tested for its depth.
def Eval.admitted (ev : Evaluators) (env : Nat) (f : Function) (args : List Value) :
    Exec Value :=
  Exec.withFrame env fun scope => do
    Eval.defaults ev scope f.params
    Eval.bindAll scope f.params args
    match Eval.missing? f.params args.length with
    | some p => Exec.fault (.missingArgument p.name f.name)
    | none => return Eval.result (← ev.body scope f)

theorem World.closed_opened (w : World) (env : Nat) : (w.opened env).closed w.frames.size = w := by
  have hframes : (w.frames.child env).release w.frames.size = w.frames := by
    simp [Frames.child, Frames.release, Frames.size]
  simp only [World.closed, World.opened, hframes]

-- A call is refused, without an effect, exactly if its frame would be too deep.
theorem Eval.call_eq (ev : Evaluators) (env : Nat) (f : Function) (args : List Value) (w : World) :
    Eval.call ev env f args w =
      if Eval.callDepth < w.frames.depth env + 1 then
        .error (.fault (.runtimeAt (.recursionLimit Eval.callDepth) f.line)) w
      else Eval.admitted ev env f args w := by
  have hdepth : (w.opened env).frames.depth w.frames.size = w.frames.depth env + 1 :=
    Frames.depth_child_self w.frames env
  rw [Eval.call, Exec.withFrame_eq_closed, Exec.bind_apply, Exec.get_apply]
  simp only [hdepth]
  split
  · have hstop : ∀ g : Unit → Exec Value, (Exec.faultAt (.recursionLimit callDepth) f.line >>= g)
        (w.opened env) = .error (.fault (.runtimeAt (.recursionLimit callDepth) f.line))
          (w.opened env) := fun _ => rfl
    rw [hstop, Outcome.closed, World.closed_opened]
  · rfl

namespace Frames

-- All frames are at most `limit` deep.
def within (limit : Nat) (fs : Frames) : Bool :=
  fs.all.all fun f => decide (f.depth ≤ limit)

theorem within_of_forall {limit : Nat} {fs : Frames} (h : ∀ i, fs.depth i ≤ limit) :
    fs.within limit = true := by
  refine Array.all_eq_true.mpr fun i hi => decide_eq_true ?_
  have hdepth := h i
  rwa [depth, Array.getElem?_eq_getElem hi] at hdepth

end Frames

-- Frames are at most `limit` deep: all that there are when something is evaluated, and the one
-- that an expression or a statement with blocks opens under its own.
def Contract.shallow (limit : Nat) : Contract where
  expr _ env _ w _ := w.frames.within limit && decide (w.frames.depth env + 1 ≤ limit)
  stmt _ env s w _ :=
    w.frames.within limit && (s.blocks.isEmpty || decide (w.frames.depth env + 1 ≤ limit))
  body _ w _ := w.frames.within limit

-- The deepest that a frame can be: that of a call, and all levels of nesting below it.
def deepest : Nat :=
  Eval.callDepth + Grammar.maxNesting

-- There is room for some levels below the frame `env`, and no frame is too deep.
structure Frames.HasRoom (left env : Nat) (fs : Frames) : Prop where
  room : fs.depth env + left ≤ deepest
  root : fs.depth globals = 0
  size : globals < fs.size
  shallow : ∀ i, fs.depth i ≤ deepest

namespace Frames.HasRoom

variable {left env : Nat} {new : String → Prop} {fs gs : Frames}

theorem keeps {scope : Nat} (h : fs.HasRoom left env) (hk : Keeps scope new fs gs) :
    gs.HasRoom left env where
  room := hk.depth env ▸ h.room
  root := hk.depth globals ▸ h.root
  size := hk.size ▸ h.size
  shallow i := hk.depth i ▸ h.shallow i

theorem globals : Frames.root.HasRoom Grammar.maxNesting globals where
  room := by decide
  root := rfl
  size := by decide
  shallow i := by
    cases i with
    | zero => decide
    | succ i => exact Nat.zero_le _

theorem child {left' : Nat} (h : fs.HasRoom left env) (hroom : fs.depth env + 1 + left' ≤ deepest) :
    (fs.child env).HasRoom left' fs.size where
  room := by
    rw [depth_child_self]
    exact hroom
  root := by
    rw [depth_child_of_lt fs env h.size]
    exact h.root
  size := by
    have hsize := h.size
    rw [size_child]
    omega
  shallow i := by
    rcases Nat.lt_trichotomy i fs.size with hi | rfl | hi
    · rw [depth_child_of_lt fs env hi]
      exact h.shallow i
    · rw [depth_child_self]
      omega
    · have hout : (fs.child env).all[i]? = none := by
        refine Array.getElem?_eq_none ?_
        rw [← Frames.size, size_child]
        exact hi
      rw [depth, hout]
      exact Nat.zero_le _

end Frames.HasRoom

-- A context is the number of levels that are left for what is evaluated in a frame.
def depths : Discipline Nat where
  expr _ left e := e.levels ≤ left
  stmt _ left s left' := left' = left ∧ s.levels ≤ left ∧ left ≤ Grammar.maxNesting
  call _ left := 0 < left
  inside _ left := left - 1
  project left _ := left - 1
  holds _ left env w := w.frames.HasRoom left env
  func f _ := f.definition.levels ≤ Grammar.maxNesting
  signal _ _ := True
  ends _ := True
  allowed _ := True

namespace depths

variable {n left env : Nat} {w : World}

theorem opened (h : w.frames.HasRoom left env) (hleft : 0 < left) :
    (w.opened env).frames.HasRoom (left - 1) w.frames.size := by
  have hroom := h.room
  exact h.child (by omega)

theorem opened_defined (h : w.frames.HasRoom left env) (hleft : 0 < left) (name : String)
    (v : Value) :
    ((w.opened env).defined w.frames.size name v).frames.HasRoom (left - 1) w.frames.size :=
  (opened h hleft).keeps (Frames.keeps_define _ _ name v)

theorem block {body : List Stmt} (hleft : left ≤ Grammar.maxNesting)
    (h : ∀ s ∈ body, s.levels ≤ left) : depths.Block n left body :=
  .of_forall fun s hs => ⟨rfl, h s hs, hleft⟩

theorem enters {f : Function} (hf : f.definition.levels ≤ Grammar.maxNesting ∨ f = idle)
    (h : w.frames.HasRoom left env) (hdepth : w.frames.depth env + 1 ≤ Eval.callDepth) :
    depths.Enters n f env w Grammar.maxNesting Grammar.maxNesting where
  start := h.child (Nat.add_le_add_right hdepth _)
  default p hp e he := by
    rcases hf with hf | rfl
    · refine (Stmt.levels_le_iff.mp hf).1 e (List.mem_filterMap.mpr ⟨p, hp, he⟩)
    · cases hp
  param p _ t v ht := ht.keeps (Frames.keeps_define _ _ p.name v)
  bound _ _ ht _ := ht
  body := by
    cases n with
    | zero => exact trivial
    | succ n =>
      refine block (Nat.le_refl _) fun s hs => ?_
      rcases hf with hf | rfl
      · have hlt := Stmt.levels_body (s := f.definition) List.mem_cons_self hs
        omega
      · cases hs
  ends _ _ := trivial

theorem lawful : depths.Lawful where
  operand he x hx := Nat.le_trans (Expr.levels_operand hx) he
  projection {n c bracket iterator ty initial iterable projection} he := by
    have hmem : projection ∈
        (Expr.comprehension bracket iterator ty initial iterable projection).inner := by
      simp [Expr.inner]
    exact Nat.le_sub_one_of_lt (Nat.lt_of_lt_of_le (Expr.levels_inner hmem) he)
  calling {n c e name} he _ := Nat.lt_of_lt_of_le e.levels_pos he
  value hs e he := Nat.le_trans (Stmt.levels_operand he) hs.2.1
  block hs body hbody := by
    refine block (Nat.le_trans (Nat.sub_le _ _) hs.2.2) fun t ht => ?_
    have hlt := Stmt.levels_body (Stmt.mem_bodies_of_mem_blocks hbody) ht
    exact Nat.le_sub_one_of_lt (Nat.lt_of_lt_of_le hlt hs.2.1)
  stable h hm := h.keeps hm.frames
  opens hs hblocks _ h := by
    obtain ⟨body, hbody⟩ := List.exists_mem_of_ne_nil _ hblocks
    exact opened h ((Stmt.levels_le_iff.mp hs.2.1).2 body (Stmt.mem_bodies_of_mem_blocks hbody)).1
  iterates {n k c d iterable body c' env w} v hs h := by
    have hleft := ((Stmt.levels_le_iff.mp hs.2.1).2 body List.mem_cons_self).1
    exact opened_defined h hleft _ v
  projects {n k c bracket iterator ty initial iterable projection env w} v he h := by
    have hleft := Nat.lt_of_lt_of_le (Expr.levels_pos _) he
    exact opened_defined h hleft _ v
  follows hs _ _ _ h := hs.1 ▸ h
  declares {n k c s c' env w x} v hs _ h := hs.1 ▸ h.keeps (Frames.keeps_define _ env x v)
  defines hs h := ⟨Nat.le_trans hs.2.1 hs.2.2, hs.1 ▸ h⟩
  enters _ h hf hdepth := ⟨_, _, enters hf h hdepth⟩
  serves _ _ h := by
    refine ⟨Grammar.maxNesting, fun _ => { h with room := ?_ }, Nat.zero_lt_succ _⟩
    rw [h.root]
    decide

theorem ensures : depths.Ensures (.shallow deepest) where
  expr {n k c env e w r} he h _ _ := by
    have hpos := e.levels_pos
    have hle : e.levels ≤ c := he
    have hroom := h.room
    simp only [Contract.shallow, Frames.within_of_forall h.shallow, Bool.true_and]
    exact decide_eq_true (by omega)
  stmt {n k c c' env s w r} hs h _ _ := by
    simp only [Contract.shallow, Frames.within_of_forall h.shallow, Bool.true_and, Bool.or_eq_true,
      List.isEmpty_iff, decide_eq_true_eq]
    by_cases hblocks : s.blocks = []
    · exact .inl hblocks
    · obtain ⟨body, hbody⟩ := List.exists_mem_of_ne_nil _ hblocks
      have hleft := ((Stmt.levels_le_iff.mp hs.2.1).2 body (Stmt.mem_bodies_of_mem_blocks hbody)).1
      have hroom := h.room
      exact .inr (by omega)
  body h _ _ := Frames.within_of_forall h.shallow

end depths

-- No frame is ever more than 1024 + 128 deep in a run of a program that can be read, though
-- nothing but calls is tested. A call is refused, without an effect, exactly if its frame would
-- be more than 1024 deep.
theorem frame_depths_are_bounded {source : String} {p : Program} (hp : parse source = .ok p)
    (fuel : Nat) (console : Console) (options : Options) :
    (Contract.shallow (1024 + 128)).Kept fuel p (World.fresh console options) ∧
    ∀ ev env f args w, Eval.call ev env f args w =
      if 1024 < w.frames.depth env + 1 then
        .error (.fault (.runtimeAt (.recursionLimit 1024) f.line)) w
      else Eval.admitted ev env f args w := by
  refine ⟨?_, Eval.call_eq⟩
  have hblock : depths.Block fuel Grammar.maxNesting p :=
    depths.block (Nat.le_refl _) (Stmt.levelsOf_le_iff.mp (levels_of_parse hp))
  have hroom : depths.holds none Grammar.maxNesting globals (World.fresh console options) :=
    Frames.HasRoom.globals
  exact ((Discipline.watched_agrees depths.lawful depths.ensures fuel).run depths.lawful hblock
    (fun _ _ _ _ => trivial) hroom (depths.inv_fresh console options)).same

-- A function without end, called below a block, a comprehension and a default.
def deepCalls : String :=
  "func f(n: number = len([for (x: number in [1]) -> x])) -> number \x7b
    seq \x7b if (true) \x7b return f() \x7d \x7d return n \x7d
  for (y: number in [1, 2]) \x7b f(y) \x7d"

set_option maxRecDepth 10000 in
theorem deepCalls_are_bounded :
    ∃ p, parse deepCalls = .ok p ∧
      (Contract.shallow (1024 + 128)).Kept 5000 p
        (World.fresh (.captured "") ⟨true, .loopback⟩) := by
  obtain ⟨p, hp⟩ := exists_of_isOk (x := parse deepCalls) (by decide +kernel)
  exact ⟨p, hp, (frame_depths_are_bounded hp 5000 _ _).1⟩

end Parlance
