import Parlance.Host.Local
import Parlance.Proofs.Confinement
import Parlance.Proofs.FrameDepth
import Parlance.Proofs.Grammar.Formed

namespace Parlance

-- The first `n` arguments reach all parameters that have to be given.
def Covered (params : List Param) (n : Nat) : Prop :=
  ∀ i p, params[i]? = some p → p.isRequired = true → i < n

-- The parameters that have to be given come before those that have a default.
def RequiredFirst (params : List Param) : Prop :=
  params.Pairwise fun p q => q.isRequired = true → p.isRequired = true

-- Behind the first `n` parameters, `p` is the first one that has to be given.
def Lacks (params : List Param) (n : Nat) (p : Param) : Prop :=
  ∃ i, n ≤ i ∧ params[i]? = some p ∧ p.isRequired = true ∧
    ∀ j q, n ≤ j → j < i → params[j]? = some q → q.isRequired = false

theorem requiredCount_cons (p : Param) (params : List Param) :
    requiredCount (p :: params) = requiredCount params + if p.isRequired then 1 else 0 :=
  List.countP_cons

theorem Covered.tail {p : Param} {params : List Param} {n : Nat} (h : Covered (p :: params) n) :
    Covered params (n - 1) := by
  intro i q hq hrequired
  have hlt := h (i + 1) q hq hrequired
  omega

-- There are no more parameters to give than arguments that reach all of them.
theorem Covered.requiredCount_le {params : List Param} {n : Nat} (h : Covered params n) :
    requiredCount params ≤ n := by
  induction params generalizing n with
  | nil => exact Nat.zero_le n
  | cons p params ih =>
    have htail := ih h.tail
    rw [requiredCount_cons]
    by_cases hrequired : p.isRequired = true
    · have hpos := h 0 p rfl hrequired
      rw [if_pos hrequired]
      omega
    · rw [if_neg hrequired]
      omega

theorem RequiredFirst.covered {params : List Param} {n : Nat} (h : RequiredFirst params)
    (hn : requiredCount params ≤ n) : Covered params n := by
  induction params generalizing n with
  | nil =>
    intro i p hp
    cases hp
  | cons p params ih =>
    obtain ⟨hhead, htail⟩ := List.pairwise_cons.mp h
    rw [requiredCount_cons] at hn
    intro i q hq hrequired
    cases i with
    | zero =>
      cases hq
      rw [if_pos hrequired] at hn
      omega
    | succ i =>
      have hp := hhead q (List.mem_of_getElem? hq) hrequired
      rw [if_pos hp] at hn
      have hlt := ih (n := n - 1) htail (by omega) i q hq hrequired
      omega

-- As many arguments as there are parameters to give reach all of them only if these come first.
theorem Covered.requiredFirst {params : List Param} (h : Covered params (requiredCount params)) :
    RequiredFirst params := by
  induction params with
  | nil => exact .nil
  | cons p params ih =>
    have htail := h.tail
    rw [requiredCount_cons] at htail
    by_cases hrequired : p.isRequired = true
    · rw [if_pos hrequired] at htail
      exact List.pairwise_cons.mpr ⟨fun _ _ _ => hrequired, ih htail⟩
    · rw [if_neg hrequired] at htail
      -- No argument is left for the others, so that none of them has to be given.
      have hnone : requiredCount params = 0 := by
        have hle := htail.requiredCount_le
        omega
      have hall := List.countP_eq_zero.mp hnone
      refine List.pairwise_cons.mpr ⟨fun q hq hq' => absurd hq' (hall q hq), ih ?_⟩
      intro i q hq hq'
      exact absurd hq' (hall q (List.mem_of_getElem? hq))

theorem requiredFirst_iff {params : List Param} :
    RequiredFirst params ↔ ∀ n, requiredCount params ≤ n → Covered params n :=
  ⟨fun h _ hn => h.covered hn, fun h => (h _ (Nat.le_refl _)).requiredFirst⟩

namespace Eval

theorem missing?_of_covered {params : List Param} {n : Nat} (h : Covered params n) :
    missing? params n = none := by
  refine List.find?_eq_none.mpr fun p hp hrequired => ?_
  obtain ⟨i, hi⟩ := List.getElem?_of_mem hp
  rw [List.getElem?_drop] at hi
  have hlt := h (n + i) p hi hrequired
  omega

theorem missing?_of_lacks {params : List Param} {n : Nat} {p : Param} (h : Lacks params n p) :
    missing? params n = some p := by
  obtain ⟨i, hn, hp, hrequired, hbefore⟩ := h
  obtain ⟨hi, hget⟩ := List.getElem?_eq_some_iff.mp hp
  refine List.find?_eq_some_iff_getElem.mpr ⟨hrequired, i - n, ?_, ?_, fun j hj => ?_⟩
  · rw [List.length_drop]
    omega
  · rw [List.getElem_drop]
    simp only [Nat.add_sub_cancel' hn]
    exact hget
  · rw [List.getElem_drop, Bool.not_eq_true']
    exact hbefore (n + j) _ (by omega) (by omega) (List.getElem?_eq_getElem _)

end Eval

-- The world in which parameters have got their arguments, as far as both go.
def World.given (env : Nat) : List Param → List Value → World → World
  | p :: params, v :: args, w => given env params args (w.defined env p.name v)
  | _, _, w => w

namespace World

variable {env : Nat} {params : List Param} {args : List Value} {w : World}

theorem get?_given_of_not_mem {x : String} (hscope : env < w.frames.size)
    (hx : x ∉ params.map Param.name) :
    ((w.given env params args).frames.bindings env).get? x =
      (w.frames.bindings env).get? x := by
  induction params generalizing args w with
  | nil => rfl
  | cons p params ih =>
    rw [List.map_cons, List.mem_cons, not_or] at hx
    cases args with
    | nil => rfl
    | cons v args =>
      have hsize : env < (w.defined env p.name v).frames.size :=
        (Frames.size_define w.frames env p.name v).symm ▸ hscope
      rw [given, ih hsize hx.2, defined, Frames.bindings_define_self _ _ _ hscope,
        Table.get?_insert_of_ne _ hx.1]

-- Parameters of different names have the arguments at their own places.
theorem get?_given {i : Nat} {p : Param} {v : Value} (hscope : env < w.frames.size)
    (hnodup : (params.map Param.name).Nodup) (hp : params[i]? = some p)
    (hv : args[i]? = some v) :
    ((w.given env params args).frames.bindings env).get? p.name = some v := by
  induction params generalizing i args w with
  | nil => cases hp
  | cons q params ih =>
    obtain ⟨hq, hnodup⟩ := List.nodup_cons.mp hnodup
    cases args with
    | nil => cases hv
    | cons u args =>
      have hsize : env < (w.defined env q.name u).frames.size :=
        (Frames.size_define w.frames env q.name u).symm ▸ hscope
      rw [given]
      cases i with
      | zero =>
        cases hp
        cases hv
        rw [get?_given_of_not_mem hsize hq, defined, Frames.bindings_define_self _ _ _ hscope,
          Table.get?_insert_self]
      | succ i => exact ih hsize hnodup hp hv

end World

theorem Eval.bindAll_eq (env : Nat) (params : List Param) (args : List Value) (w : World) :
    Eval.bindAll env params args w = .ok () (w.given env params args) := by
  induction params generalizing args w with
  | nil => rfl
  | cons p params ih =>
    cases args with
    | nil => rfl
    | cons v args => exact ih args (w.defined env p.name v)

-- A world in which the body of a function starts that was called from the frame `env` of
-- another world. It runs in a new frame under `env`.
structure Started (f : Function) (args : List Value) (env : Nat) (w t : World) : Prop where
  chain : t.frames.chain w.frames.size = w.frames.size :: w.frames.chain env
  given : ∀ (i : Nat) (p : Param) (v : Value), f.params[i]? = some p → args[i]? = some v →
    (t.frames.bindings w.frames.size).get? p.name = some v
  bound : ∀ p ∈ f.params, t.frames.Binds w.frames.size p.name

-- How a call ends, given the first parameter that it leaves without a value: its frame is too
-- deep, a default stops it, the parameter is missing, or else it ends as the body does.
inductive CallEnds (fuel env : Nat) (f : Function) (args : List Value) (w : World) :
    Option Param → Outcome Value → Prop
  | tooDeep {lacking} (h : Eval.callDepth < w.frames.depth env + 1) :
      CallEnds fuel env f args w lacking
        (.error (.fault (.runtimeAt (.recursionLimit Eval.callDepth) f.line)) w)
  | inDefault {lacking s t}
      (h : Eval.defaults (evaluators fuel) w.frames.size f.params (w.opened env) = .error s t) :
      CallEnds fuel env f args w lacking (.error s (t.closed w.frames.size))
  | missing (p t) :
      CallEnds fuel env f args w (some p)
        (.error (.fault (.runtime (.missingArgument p.name f.name))) t)
  | inBody {t} (h : Started f args env w t) :
      CallEnds fuel env f args w none
        (Outcome.closed w.frames.size
          ((do return Eval.result (← runBody fuel w.frames.size f)) t))

section

variable {fuel env : Nat} {f : Function} {args : List Value} {w t : World}

-- The frame of a call once the defaults have been evaluated and the arguments are there.
theorem started_given (hroot : globals ∈ w.frames.chain env)
    (hnodup : (f.params.map Param.name).Nodup)
    (hmissing : Eval.missing? f.params args.length = none)
    (ht : Eval.defaults (evaluators fuel) w.frames.size f.params (w.opened env) = .ok () t) :
    Started f args env w (t.given w.frames.size f.params args) := by
  have L := rooted.lawful
  have hE : rooted.Enters fuel f env w () () := rooted.enters f hroot
  have hsize : w.frames.size < (w.opened env).frames.size := by
    rw [World.opened, Frames.size_child]
    omega
  have hdefaults := ((rooted.agrees fuel).defaults L hE (fun _ h => h) hsize hE.start
    (rooted.inv _)).meets
  rw [ht] at hdefaults
  obtain ⟨hmoves, hinv, hholds, hbound⟩ := hdefaults
  have hscope : w.frames.size < t.frames.size := hmoves.frames.size ▸ hsize
  have hargs := (Discipline.Agrees.bindAll L hE (fun _ h => h) args hscope hholds hinv).meets
  rw [Eval.bindAll_eq] at hargs
  obtain ⟨hmoves', -, -, hbound'⟩ := hargs
  refine ⟨?_, fun i p v hp hv => World.get?_given hscope hnodup hp hv, fun p hp => ?_⟩
  · rw [hmoves'.frames.chain, hmoves.frames.chain]
    exact Frames.chain_child_self w.frames (Frames.lt_size_of_mem_chain hroot)
  · rcases Discipline.Agrees.default_of_missing? hmissing hp with htake | hdefault
    · exact hbound' p htake
    · exact hmoves'.frames.binds _ _ (hbound p hp hdefault)

theorem callEnds (hroot : globals ∈ w.frames.chain env)
    (hnodup : (f.params.map Param.name).Nodup) :
    CallEnds fuel env f args w (Eval.missing? f.params args.length)
      (callFunction (fuel + 1) env f args w) := by
  have hcall : callFunction (fuel + 1) env f args w = Eval.call (evaluators fuel) env f args w := by
    rw [callFunction, evaluators]
  rw [hcall, Eval.call_eq]
  split
  · next hdeep => exact .tooDeep hdeep
  · rw [Eval.admitted, Exec.withFrame_eq_closed, Exec.bind_apply]
    cases hdefaults : Eval.defaults (evaluators fuel) w.frames.size f.params (w.opened env) with
    | error s t => exact .inDefault hdefaults
    | ok u t =>
      simp only [Exec.bind_apply, Eval.bindAll_eq]
      cases hmissing : Eval.missing? f.params args.length with
      | some p => exact .missing p _
      | none => exact .inBody (started_given hroot hnodup hmissing hdefaults)

end

namespace Typing

-- Calls of a function are accepted if there are enough arguments.
theorem required_le_of_callType {fs : Functions} {name : Token} {callee : Option Ty}
    {operands : List (Expr × Ty)} {f : FunctionType} {ty : Ty}
    (hname : builtinType? name.lexeme = none) (hf : fs.lookup name.lexeme = some f)
    (h : callType fs name callee operands = .ok ty) : f.required ≤ operands.length := by
  unfold callType at h
  simp only [hname, hf] at h
  obtain ⟨_, hrequire, _⟩ := bind_eq_ok.mp h
  exact of_decide_eq_true (of_require hrequire)

end Typing

-- The function that a statement defines.
def Stmt.function? : Stmt → Option Function
  | function name returns params body line => some ⟨name, returns, params, body, line⟩
  | _ => none

-- The functions that are defined anywhere in a program.
def Program.functions (p : Program) : List Function :=
  (Program.parts p).filterMap Stmt.function?

theorem Program.nodup_of_mem_functions {source : String} {p : Program} (hp : parse source = .ok p)
    {f : Function} (hf : f ∈ Program.functions p) : (f.params.map Param.name).Nodup := by
  obtain ⟨s, hs, hs'⟩ := List.mem_filterMap.mp hf
  have hformed := (Program.formed_of_mem hp).1 s hs
  cases s with
  | function name returns params body line =>
    cases hs'
    exact of_decide_eq_true hformed
  | _ => cases hs'

-- A call that the checker accepts starts the body with all parameters bound, unless it stops
-- before that for another reason, if the parameters that have to be given come first. Where they
-- do not, the count of them says too little: a call is refused that leaves one of them behind.
theorem accepted_call_binds_required {source : String} {p : Program} (hp : parse source = .ok p)
    {f : Function} (hf : f ∈ Program.functions p) {fs : Typing.Functions} {name : Token}
    (hname : builtinType? name.lexeme = none)
    (hlookup : fs.lookup name.lexeme = some ⟨f.returns, requiredCount f.params⟩)
    {callee : Option Ty} {operands : List (Expr × Ty)} {ty : Ty}
    (haccepted : Typing.callType fs name callee operands = .ok ty)
    {args : List Value} (hargs : args.length = operands.length)
    {env : Nat} {w : World} (hroot : globals ∈ w.frames.chain env) (fuel : Nat) :
    (RequiredFirst f.params ↔ ∀ n, requiredCount f.params ≤ n → Covered f.params n) ∧
    (RequiredFirst f.params ∨ Covered f.params args.length →
      CallEnds fuel env f args w none (callFunction (fuel + 1) env f args w)) ∧
    ∀ q, Lacks f.params args.length q →
      CallEnds fuel env f args w (some q) (callFunction (fuel + 1) env f args w) := by
  have hends : CallEnds fuel env f args w (Eval.missing? f.params args.length)
      (callFunction (fuel + 1) env f args w) :=
    callEnds hroot (Program.nodup_of_mem_functions hp hf)
  have hcount : requiredCount f.params ≤ args.length :=
    hargs ▸ Typing.required_le_of_callType hname hlookup haccepted
  refine ⟨requiredFirst_iff, fun h => ?_, fun q hq => ?_⟩
  · have hcovered : Covered f.params args.length := h.elim (fun h => h.covered hcount) id
    rwa [Eval.missing?_of_covered hcovered] at hends
  · rwa [Eval.missing?_of_lacks hq] at hends

-- A function whose second parameter has a default.
def defaultedProduct : String :=
  "func f(a: number, b: number = len([1, 2])) -> number \x7b return a * b \x7d"

set_option maxRecDepth 10000 in
theorem defaultedProduct_binds_required :
    ∃ p, parse defaultedProduct = .ok p ∧ ∃ f ∈ Program.functions p,
      RequiredFirst f.params ∧ requiredCount f.params = 1 ∧
        CallEnds 20 globals f [.int 5] (World.fresh (.captured "") ⟨true, .loopback⟩) none
          (callFunction 21 globals f [.int 5] (World.fresh (.captured "") ⟨true, .loopback⟩)) := by
  obtain ⟨p, hp, f, hf, hparams, hcount⟩ : ∃ p, parse defaultedProduct = .ok p ∧
      ∃ f ∈ Program.functions p,
        f.params.map Param.isRequired = [true, false] ∧ requiredCount f.params = 1 :=
    exists_of_any (by decide +kernel)
  have hfirst : RequiredFirst f.params := by
    have hpairs : (f.params.map Param.isRequired).Pairwise fun a b => b = true → a = true := by
      simp [hparams]
    exact List.pairwise_map.mp hpairs
  refine ⟨p, hp, f, hf, hfirst, hcount, ?_⟩
  have haccepted : Typing.callType [("f", ⟨f.returns, requiredCount f.params⟩)] ⟨.id, "f", 1⟩ none
      [(.constant ⟨.number, "5", 1⟩, .number)] = .ok f.returns := by
    rw [hcount]
    rfl
  have hroot : globals ∈ (World.fresh (.captured "") ⟨true, .loopback⟩).frames.chain globals :=
    Frames.mem_chain_self _ (by decide)
  exact (accepted_call_binds_required hp hf rfl rfl haccepted rfl hroot 20).2.1 (.inl hfirst)

-- One parameter has to be given, and the one argument that is given is not for it.
def requiredLast : String :=
  "func f(a: number = 1, b: number) -> number \x7b return 7 \x7d
  print(f(5))"

set_option maxRecDepth 10000 in
theorem requiredLast_lacks_an_argument :
    ∃ p, compile requiredLast = .ok p ∧
      Outcome.fault? (runStatements 20 p (World.fresh (.captured "") ⟨true, .loopback⟩)) =
        some (.runtimeAt (.missingArgument "b" "f") 2) :=
  exists_of_any (by decide +kernel)

end Parlance
