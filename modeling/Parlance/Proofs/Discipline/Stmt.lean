import Parlance.Proofs.Discipline.Expr

namespace Parlance.Discipline.Agrees

open Eval

variable {κ : Type} {D : Discipline κ} {n : Nat} {X : Option Activation → Evaluators}
  {Y : Evaluators} {k : Option Activation} {c c' : κ} {env : Nat} {s : Stmt} {w : World}

theorem block (A : D.Agrees n X Y) (L : D.Lawful) {body : List Stmt} (hb : D.Block n c body)
    (hc : D.holds k c env w) (hw : D.Inv w) :
    D.Runs env anyName (block (X k) env body) (block Y env body) w fun signal t =>
      D.signal c signal ∧
        (signal = .normal → ∃ c', D.Leads n c body c' ∧ D.holds k c' env t) := by
  induction hb generalizing w with
  | nil c => exact .pure hw ⟨L.signals.normal c, fun _ => ⟨c, .nil c, hc⟩⟩
  | cons head tail ih =>
    refine .bind (A.stmt head hc hw).anywhere fun signal t _ ht hsignal => ?_
    cases signal with
    | normal =>
      refine (ih (hsignal.2 rfl) ht).imp fun _ _ _ hrest => ?_
      refine ⟨L.signals.keeps head hrest.1, fun hend => ?_⟩
      obtain ⟨c'', hleads, hc''⟩ := hrest.2 hend
      exact ⟨c'', .cons head hleads, hc''⟩
    | ret v => exact .pure ht ⟨hsignal.1, by rintro ⟨⟩⟩
    | brk => exact .pure ht ⟨hsignal.1, by rintro ⟨⟩⟩
    | cont => exact .pure ht ⟨hsignal.1, by rintro ⟨⟩⟩

theorem inFrame (A : D.Agrees n X Y) (L : D.Lawful) {body : List Stmt}
    (hs : D.stmt (n + 1) c s c') (heach : s.isEach = false) (hbody : body ∈ s.blocks)
    (hc : D.holds k c env w) (hw : D.Inv w) :
    D.Runs env noName (inFrame (X k) env body) (inFrame Y env body) w fun signal t =>
      D.signal (D.inside s c) signal ∧ (signal = .normal → ∃ c' u,
        D.Leads n (D.inside s c) body c' ∧ D.holds k c' w.frames.size u ∧
          t = u.closed w.frames.size) := by
  have hopens := L.opens hs (List.ne_nil_of_mem hbody) heach hc
  refine (Runs.withFrame L hc (A.block L (L.block hs body hbody) hopens (L.inv_opened env hw))).imp
    fun signal t _ hended => ?_
  obtain ⟨u, rfl, hsignal, hleads⟩ := hended
  refine ⟨hsignal, fun hend => ?_⟩
  obtain ⟨c', hleads, hc'⟩ := hleads hend
  exact ⟨c', u, hleads, hc', rfl⟩

section Call

variable {f : Function} {caller scope : Nat} {w₀ : World} {c₁ c₂ : κ}

-- The defaults bind the parameters that have one, whatever comes after.
theorem defaults (A : D.Agrees n X Y) (L : D.Lawful) (hE : D.Enters n f caller w₀ c₁ c₂)
    {params : List Param} (hparams : ∀ p ∈ params, p ∈ f.params)
    (hscope : w₀.frames.size < w.frames.size) (hc : D.holds none c₁ w₀.frames.size w)
    (hw : D.Inv w) :
    D.Runs w₀.frames.size f.HasParam (defaults (X none) w₀.frames.size params)
      (defaults Y w₀.frames.size params) w fun _ t => D.holds none c₁ w₀.frames.size t ∧
        ∀ p ∈ params, p.default.isSome → t.frames.Binds w₀.frames.size p.name := by
  induction params generalizing w with
  | nil => exact .pure hw ⟨hc, by simp⟩
  | cons p params ih =>
    have hrest := fun q hq => hparams q (List.mem_cons_of_mem p hq)
    have hp := hparams p List.mem_cons_self
    unfold Eval.defaults
    cases hd : p.default with
    | none =>
      refine (ih hrest hscope hc hw).imp fun _ t _ ht => ⟨ht.1, fun q hq hs => ?_⟩
      rcases List.mem_cons.mp hq with rfl | hq
      · simp [hd] at hs
      · exact ht.2 q hq hs
    | some e =>
      refine .after (A.expr (hE.default p hp e hd) hc hw) fun v t hm ht _ => ?_
      have hct := L.stable hc hm
      have hsize : w₀.frames.size < (t.defined w₀.frames.size p.name v).frames.size := by
        rw [World.defined, Frames.size_define, hm.frames.size]
        exact hscope
      refine .bind (Q := fun _ u => u = t.defined w₀.frames.size p.name v)
        (.define L ⟨p, hp, rfl⟩ ht rfl) ?_
      rintro _ _ _ hu rfl
      refine (ih hrest hsize (hE.param p hp t v hct) hu).imp fun _ u hm' hQ => ⟨hQ.1, ?_⟩
      intro q hq hs
      rcases List.mem_cons.mp hq with rfl | hq
      · refine hm'.frames.binds _ _ ((Frames.binds_define_iff _ _ v ?_ _ _).mpr (.inr ⟨rfl, rfl⟩))
        rw [hm.frames.size]
        exact hscope
      · exact hQ.2 q hq hs

-- The arguments bind the first parameters.
theorem bindAll (L : D.Lawful) (hE : D.Enters n f caller w₀ c₁ c₂) {params : List Param}
    (hparams : ∀ p ∈ params, p ∈ f.params) (args : List Value)
    (hscope : w₀.frames.size < w.frames.size) (hc : D.holds none c₁ w₀.frames.size w)
    (hw : D.Inv w) :
    D.Runs w₀.frames.size f.HasParam (bindAll w₀.frames.size params args)
      (bindAll w₀.frames.size params args) w fun _ t => D.holds none c₁ w₀.frames.size t ∧
        ∀ p ∈ params.take args.length, t.frames.Binds w₀.frames.size p.name := by
  induction params generalizing args w with
  | nil => exact .pure hw ⟨hc, by simp⟩
  | cons p params ih =>
    cases args with
    | nil => exact .pure hw ⟨hc, by simp⟩
    | cons v args =>
      have hrest := fun q hq => hparams q (List.mem_cons_of_mem p hq)
      have hp := hparams p List.mem_cons_self
      have hsize : w₀.frames.size < (w.defined w₀.frames.size p.name v).frames.size := by
        rw [World.defined, Frames.size_define]
        exact hscope
      refine .bind (Q := fun _ u => u = w.defined w₀.frames.size p.name v)
        (.define L ⟨p, hp, rfl⟩ hw rfl) ?_
      rintro _ _ _ hu rfl
      have hcu := hE.param p hp w v hc
      refine (ih hrest args hsize hcu hu).imp fun _ u hm hQ => ⟨hQ.1, fun q hq => ?_⟩
      rw [List.length_cons, List.take_succ_cons] at hq
      rcases List.mem_cons.mp hq with rfl | hq
      · exact hm.frames.binds _ _ ((Frames.binds_define_iff _ _ v hscope _ _).mpr (.inr ⟨rfl, rfl⟩))
      · exact hQ.2 q hq

end Call

-- A call in which no argument is missing binds all parameters.
theorem default_of_missing? {params : List Param} {given : Nat} (h : missing? params given = none)
    {p : Param} (hp : p ∈ params) : p ∈ params.take given ∨ p.default.isSome := by
  rw [← List.take_append_drop given params] at hp
  rcases List.mem_append.mp hp with hp | hp
  · exact .inl hp
  · have hrequired := List.find?_eq_none.mp h p hp
    simp only [Param.isRequired, Option.isNone_iff_eq_none] at hrequired
    exact .inr (Option.isSome_iff_ne_none.mpr hrequired)

theorem call_succ (A : D.Agrees n X Y) (L : D.Lawful) {f : Function} {args : List Value}
    (hcall : D.call (n + 1) c) (hc : D.holds k c env w)
    (hf : D.func f w ∨ f = idle ∧ env = globals) (hw : D.Inv w) :
    D.Runs env noName (Eval.call (X none) env f args) (Eval.call Y env f args) w noMatter := by
  refine (Runs.withFrame (P := noMatter) L hc (.get ?_)).imp fun _ _ _ _ => trivial
  have hopened := L.inv_opened env hw
  have hdepth : (w.opened env).frames.depth w.frames.size = w.frames.depth env + 1 :=
    Frames.depth_child_self w.frames env
  have hsize : w.frames.size < (w.opened env).frames.size := by
    rw [World.opened, Frames.size_child]
    omega
  simp only [hdepth]
  by_cases hdeep : callDepth < w.frames.depth env + 1
  · simp only [hdeep, ite_true]
    have hstop := L.placed (L.fails (.deep hcall)) f.line (L.lines.func hc hf hdeep)
    exact .bind (.stop (Q := fun _ _ => False) hopened hstop) fun _ _ _ _ h => h.elim
  · simp only [hdeep, ite_false]
    obtain ⟨c₁, c₂, hE⟩ := L.enters hcall hc (hf.imp_right And.left) (Nat.le_of_not_lt hdeep)
    -- The frame gets the names of the parameters and no others before the body runs.
    have hdefaults := (A.defaults L hE (fun _ h => h) hsize hE.start hopened).mono
      (fun _ _ => trivial) fun _ _ hm hQ => And.intro hm hQ
    refine .bind hdefaults fun _ t _ ht hboth => ?_
    obtain ⟨hm, hQ⟩ := hboth
    have hscope : w.frames.size < t.frames.size := hm.frames.size ▸ hsize
    have hargs := (bindAll L hE (fun _ h => h) args hscope hQ.1 ht).mono
      (fun _ _ => trivial) fun _ _ hm hR => And.intro hm hR
    refine .bind hargs fun _ u _ hu hboth => ?_
    obtain ⟨hm', hR⟩ := hboth
    cases hmissing : missing? f.params args.length with
    | some p => exact .stop hu (L.fails (.missing _ _ hcall))
    | none =>
      have hbound : ∀ x, f.HasParam x → u.frames.Binds w.frames.size x := by
        rintro _ ⟨p, hp, rfl⟩
        rcases default_of_missing? hmissing hp with htake | hdefault
        · exact hR.2 p htake
        · exact hm'.frames.binds _ _ (hQ.2 p hp hdefault)
      have hstart := hE.bound u (hm.trans hm') hR.1 hbound
      exact .bind (A.body hE.body hE.ends hstart hu) fun _ v _ hv _ => .pure hv trivial

theorem body_succ (A : D.Agrees n X Y) (L : D.Lawful) {f : Function} {scope : Nat}
    (hbody : D.Body (n + 1) c f.body) (hends : ∀ signal, D.signal c signal → D.ends signal)
    (hc : D.holds (some ⟨scope, f⟩) c scope w) (hw : D.Inv w) :
    D.Runs scope anyName (Eval.block (X (some ⟨scope, f⟩)) scope f.body)
      (Eval.block Y scope f.body) w fun signal _ => D.ends signal :=
  (A.block L hbody hc hw).imp fun signal _ _ hsignal => hends signal hsignal.1

-- What is known once a statement has ended.
abbrev Ended (D : Discipline κ) (k : Option Activation) (c c' : κ) (env : Nat) :
    Signal → World → Prop :=
  fun signal t => D.signal c signal ∧ (signal = .normal → D.holds k c' env t)

-- The end of a statement that adds no variable and no function.
theorem ended (L : D.Lawful) {signal : Signal} (hs : D.stmt (n + 1) c s c')
    (hnew : s.introduces = none) (hfunction : s.isFunction = false) (hseq : s.isSeq = false)
    (hsignal : D.signal c signal) (hc : D.holds k c env w) : Ended D k c c' env signal w := by
  refine ⟨hsignal, fun _ => L.follows hs hnew hfunction ?_ hc⟩
  rintro body rfl
  cases hseq

theorem value (A : D.Agrees n X Y) (L : D.Lawful) {x : Expr} (hs : D.stmt (n + 1) c s c')
    (hx : x ∈ s.operands) (hc : D.holds k c env w) (hw : D.Inv w) :
    D.Runs env noName ((X k).expr env x) (Y.expr env x) w noMatter :=
  A.expr (L.value hs x hx) hc hw

-- A variable is declared as the last thing that a statement does.
theorem declare (L : D.Lawful) {name : String} {v : Value} (hs : D.stmt (n + 1) c s c')
    (hname : s.introduces = some name) (hc : D.holds k c env w) (hw : D.Inv w) :
    D.Runs env (fun x => s.introduces = some x)
      (do Exec.define env name v; return Signal.normal)
      (do Exec.define env name v; return Signal.normal) w (Ended D k c c' env) := by
  refine .bind (Q := fun _ t => D.holds k c' env t)
    (.define L hname hw (L.declares v hs hname hc)) fun _ t _ ht hct => ?_
  exact .pure ht ⟨L.signals.normal c, fun _ => hct⟩

theorem declaration (A : D.Agrees n X Y) (L : D.Lawful) {d : Declaration}
    (hs : D.stmt (n + 1) c (.declaration d) c') (hc : D.holds k c env w) (hw : D.Inv w) :
    D.Runs env (fun x => (Stmt.declaration d).introduces = some x) (declaration (X k) env d)
      (declaration Y env d) w (Ended D k c c' env) := by
  unfold Eval.declaration
  cases hinit : d.init with
  | some e =>
    refine .after (A.value L hs (by simp [Stmt.operands, hinit]) hc hw) fun v t hm ht _ => ?_
    exact declare L hs rfl (L.stable hc hm) ht
  | none =>
    refine .after (.harmless L (.of_place _) hw) fun v t hm ht _ => ?_
    exact declare L hs rfl (L.stable hc hm) ht

theorem branch (A : D.Agrees n X Y) (L : D.Lawful) {condition : Expr} {yes : List Stmt}
    {no : Option (List Stmt)} (hs : D.stmt (n + 1) c (.branch condition yes no) c')
    (hc : D.holds k c env w) (hw : D.Inv w) :
    D.Runs env noName (branch (X k) env condition yes no) (branch Y env condition yes no) w
      (Ended D k c c' env) := by
  have hblock : ∀ body ∈ (Stmt.branch condition yes no).blocks, ∀ t, w.Moves env noName t →
      D.Inv t → D.Runs env noName (Eval.inFrame (X k) env body) (Eval.inFrame Y env body) t
        (Ended D k c c' env) := by
    intro body hbody t hm ht
    refine (A.inFrame L hs rfl hbody (L.stable hc hm) ht).imp fun signal u hm' hsignal => ?_
    have hpasses := L.signals.passes hs rfl rfl hsignal.1
    exact ended L hs rfl rfl rfl hpasses (L.stable hc (hm.trans hm'))
  refine .bind (A.value L hs List.mem_cons_self hc hw) fun v t hm ht _ => ?_
  refine .bind (.harmless L (.of_isTrue v) ht) fun truth u hm' hu _ => ?_
  split
  · exact hblock yes List.mem_cons_self u (hm.trans hm') hu
  · cases no with
    | some no => exact hblock no (by simp [Stmt.blocks]) u (hm.trans hm') hu
    | none =>
      refine .pure hu (ended L hs rfl rfl rfl (L.signals.normal c) ?_)
      exact L.stable hc (hm.trans hm')

-- Both loops have the same bound.
theorem loop (A : D.Agrees n X Y) (L : D.Lawful) {condition : Expr} {body : List Stmt}
    (hs : D.stmt (n + 1) c (.loop condition body) c') (bound : Nat) (hc : D.holds k c env w)
    (hw : D.Inv w) :
    D.Runs env noName (loop (X k) env condition body bound) (loop Y env condition body bound) w
      (Ended D k c c' env) := by
  induction bound generalizing w with
  | zero => exact .stop hw (L.waits (.loop hs))
  | succ bound ih =>
    refine .bind (A.value L hs List.mem_cons_self hc hw) fun v t hm ht _ => ?_
    refine .bind (.harmless L (.of_isTrue v) ht) fun truth u hm' hu _ => ?_
    have hcu := L.stable hc (hm.trans hm')
    split
    · refine .bind (A.inFrame L hs rfl List.mem_cons_self hcu hu) fun signal x hx hi hsignal => ?_
      have hcx := L.stable hcu hx
      cases signal with
      | normal => exact ih hcx hi
      | cont => exact ih hcx hi
      | brk => exact .pure hi (ended L hs rfl rfl rfl (L.signals.normal c) hcx)
      | ret v => exact .pure hi (ended L hs rfl rfl rfl (L.signals.leaves hs hsignal.1) hcx)
    · exact .pure hu (ended L hs rfl rfl rfl (L.signals.normal c) hcu)

theorem eachItem (A : D.Agrees n X Y) (L : D.Lawful) {d : Declaration} {iterable : Expr}
    {body : List Stmt} (hs : D.stmt (n + 1) c (.each d iterable body) c') (items : List Value)
    (hc : D.holds k c env w) (hw : D.Inv w) :
    D.Runs env noName (eachItem (X k) env d.name.lexeme body items)
      (eachItem Y env d.name.lexeme body items) w (Ended D k c c' env) := by
  induction items generalizing w with
  | nil => exact .pure hw (ended L hs rfl rfl rfl (L.signals.normal c) hc)
  | cons item items ih =>
    have hround : D.Runs env noName
        (Exec.withFrame env fun scope => do
          Exec.define scope d.name.lexeme item; Eval.block (X k) scope body)
        (Exec.withFrame env fun scope => do
          Exec.define scope d.name.lexeme item; Eval.block Y scope body) w
        fun signal _ => D.signal (D.inside (.each d iterable body) c) signal := by
      refine (Runs.withFrame
        (P := fun signal _ => D.signal (D.inside (.each d iterable body) c) signal) L hc (.bind
        (Q := fun _ t => t = (w.opened env).defined w.frames.size d.name.lexeme item)
        (.define L trivial (L.inv_opened env hw) rfl) ?_)).imp fun _ _ _ hended =>
          hended.elim fun _ hended => hended.2
      rintro _ _ _ ht rfl
      have hblock := A.block L (L.block hs body List.mem_cons_self) (L.iterates item hs hc) ht
      exact hblock.imp fun _ _ _ hended => hended.1
    refine .bind hround fun signal t hm ht hsignal => ?_
    have hct := L.stable hc hm
    cases signal with
    | normal => exact ih hct ht
    | cont => exact ih hct ht
    | brk => exact .pure ht (ended L hs rfl rfl rfl (L.signals.normal c) hct)
    | ret v => exact .pure ht (ended L hs rfl rfl rfl (L.signals.leaves hs hsignal) hct)

theorem inOrder (A : D.Agrees n X Y) (L : D.Lawful) {es : List Expr}
    (hs : D.stmt (n + 1) c s c') (hes : ∀ e ∈ es, e ∈ s.operands) (hc : D.holds k c env w)
    (hw : D.Inv w) :
    D.Runs env noName (inOrder (X k) env es) (inOrder Y env es) w noMatter := by
  induction es generalizing w with
  | nil => exact .pure hw trivial
  | cons e es ih =>
    refine .bind (A.value L hs (hes e List.mem_cons_self) hc hw) fun _ t hm ht _ => ?_
    exact ih (fun x hx => hes x (List.mem_cons_of_mem e hx)) (L.stable hc hm) ht

-- All workers run whatever happens to the others, and the failure that is left may happen.
theorem together (A : D.Agrees n X Y) (L : D.Lawful) {es : List Expr}
    (hs : D.stmt (n + 1) c s c') (hes : ∀ e ∈ es, e ∈ s.operands) (hc : D.holds k c env w)
    (hw : D.Inv w) :
    D.Runs env noName (together (X k) env es) (together Y env es) w
      fun r _ => ∀ f ∈ r, D.allowed (.fault f) := by
  induction es generalizing w with
  | nil => exact .pure hw (by simp)
  | cons e es ih =>
    have hrest := fun x hx => hes x (List.mem_cons_of_mem e hx)
    refine .bind (.attempt L (A.value L hs (hes e List.mem_cons_self) hc hw)) fun r t hm ht hr => ?_
    cases r with
    | ok v => exact ih hrest (L.stable hc hm) ht
    | error f =>
      refine .bind (ih hrest (L.stable hc hm) ht) fun _ u _ hu _ => .pure hu ?_
      rintro _ ⟨⟩
      exact hr

theorem parallel (A : D.Agrees n X Y) (L : D.Lawful) {body : List Stmt} {line : Nat}
    (hs : D.stmt (n + 1) c (.par body line) c') (hc : D.holds k c env w) (hw : D.Inv w) :
    D.Runs env noName (parallel (X k) env body) (parallel Y env body) w noMatter := by
  refine .get ?_
  split
  · refine .bind (A.together L hs (fun _ h => h) hc hw) fun r t _ ht hr => ?_
    cases r with
    | some f => exact .stop ht (hr f rfl)
    | none => exact .pure ht trivial
  · exact A.inOrder L hs (fun _ h => h) hc hw

theorem asPort_ordinarily (m : Int64) : Ordinarily (asPort m) :=
  .of_ite (.of_ok _) (.of_refuse rfl)

theorem endpoint (A : D.Agrees n X Y) (L : D.Lawful) (host port : Expr)
    (hs : D.stmt (n + 1) c s c') (hhost : host ∈ s.operands) (hport : port ∈ s.operands)
    (hc : D.holds k c env w) (hw : D.Inv w) :
    D.Runs env noName (endpoint (X k) env host port) (endpoint Y env host port) w noMatter := by
  refine .bind (A.value L hs hhost hc hw) fun v t hm ht _ => ?_
  refine .bind (.harmless L (.of_require (v.asText_ordinarily _)) ht) fun text u hm' hu _ => ?_
  refine .bind (A.value L hs hport (L.stable hc (hm.trans hm')) hu) fun p x _ hx _ => ?_
  refine .harmless L ?_ hx
  exact .bind (.of_require (.bind (p.asInt_ordinarily _) asPort_ordinarily)) fun _ => .of_pure _

theorem client (A : D.Agrees n X Y) (L : D.Lawful) {name : String} {host port : Expr}
    {line : Nat} (hs : D.stmt (n + 1) c (.client name host port line) c')
    (hc : D.holds k c env w) (hw : D.Inv w) :
    D.Runs env (fun x => (Stmt.client name host port line).introduces = some x)
      (client (X k) env name host port line) (client Y env name host port line) w
      (Ended D k c c' env) := by
  have hendpoint := A.endpoint L host port hs (by simp [Stmt.operands])
    (by simp [Stmt.operands]) hc hw
  have hline := L.lines.stmt hs line List.mem_cons_self
  refine .after (hendpoint.atLine L hline) fun e t hm ht _ => ?_
  have hadd : Harmless (Exec.onHeap fun h => h.addClient e) :=
    .of_modifyGet fun _ => ⟨rfl, rfl, rfl, fun _ => Heap.held_addClient⟩
  refine .after (.harmless L hadd ht) fun v u hm' hu _ => ?_
  exact declare L hs rfl (L.stable hc (hm.trans hm')) hu

theorem server (A : D.Agrees n X Y) (L : D.Lawful) {name : String} {handler : Token}
    {description host port : Expr} {line : Nat}
    (hs : D.stmt (n + 1) c (.server name handler description host port line) c')
    (hc : D.holds k c env w) (hw : D.Inv w) :
    D.Runs env
      (fun x => (Stmt.server name handler description host port line).introduces = some x)
      (server (X k) env name handler description host port line)
      (server Y env name handler description host port line) w (Ended D k c c' env) := by
  have hline := L.lines.stmt hs line List.mem_cons_self
  refine .get ?_
  cases hf : w.functions.get? handler.lexeme with
  | none => exact .stop hw (L.placed (L.fails (.unhandled hs hc hf)) line hline)
  | some f =>
    refine .after (A.value L hs List.mem_cons_self hc hw) fun d t hm ht _ => ?_
    have htext := Harmless.of_require (d.asText_ordinarily "channel description")
    refine .after (.atLine L hline (.harmless L htext ht)) fun text u hm' hu _ => ?_
    have hcu := L.stable hc (hm.trans hm')
    have hendpoint := A.endpoint L host port hs (by simp [Stmt.operands])
      (by simp [Stmt.operands]) hcu hu
    refine .after (hendpoint.atLine L hline) fun e x hx hi _ => ?_
    have hmoves := (hm.trans hm').trans hx
    have hhandler := L.func_moves hmoves (hw.functions _ f hf)
    refine .after (.addServer L (s := ⟨text, e, f⟩) hhandler hi) fun v y hy hj _ => ?_
    exact declare L hs rfl (L.stable hc (hmoves.trans hy)) hj

-- One more step of evaluation. The bounds of loops have to agree.
theorem stmt_succ (A : D.Agrees n X Y) (L : D.Lawful) {p q : Nat} (hs : D.stmt (n + 1) c s c')
    (hbound : s.isLoop = true → p = q) (hc : D.holds k c env w) (hw : D.Inv w) :
    D.Runs env (fun x => s.introduces = some x) (Eval.stmt (X k) p env s) (Eval.stmt Y q env s) w
      (Ended D k c c' env) := by
  cases s with
  | expression e =>
    refine .weaken (.bind (A.value L hs List.mem_cons_self hc hw) fun _ t hm ht _ => ?_)
    exact .pure ht (ended L hs rfl rfl rfl (L.signals.normal c) (L.stable hc hm))
  | declaration d => exact A.declaration L hs hc hw
  | function name returns params body line =>
    have ⟨hf, hc'⟩ := L.defines hs hc
    refine .weaken (.bind (Q := fun _ t => D.holds k c' env t) (.learn L hf hw hc') ?_)
    exact fun _ t _ ht hct => .pure ht ⟨L.signals.normal c, fun _ => hct⟩
  | ret value line =>
    refine .weaken ?_
    cases value with
    | some e =>
      refine .bind (A.value L hs List.mem_cons_self hc hw) fun v t hm ht _ => ?_
      exact .pure ht (ended L hs rfl rfl rfl (L.signals.returns v hs) (L.stable hc hm))
    | none => exact .pure hw (ended L hs rfl rfl rfl (L.signals.returns .void hs) hc)
  | branch condition yes no => exact .weaken (A.branch L hs hc hw)
  | loop condition body =>
    obtain rfl := hbound rfl
    exact .weaken (A.loop L hs p hc hw)
  | each d iterable body =>
    refine .weaken (.bind (A.value L hs List.mem_cons_self hc hw) fun source t hm ht _ => ?_)
    have hline := L.lines.stmt hs d.name.line List.mem_cons_self
    have hiterate := Harmless.of_reading fun h => h.iterate_ordinarily source
    refine .bind (.atLine L hline (.harmless L hiterate ht)) fun items u hm' hu _ => ?_
    exact A.eachItem L hs items (L.stable hc (hm.trans hm')) hu
  | brk line => exact .pure hw (ended L hs rfl rfl rfl (L.signals.breaks hs) hc)
  | cont line => exact .pure hw (ended L hs rfl rfl rfl (L.signals.continues hs) hc)
  | par body line =>
    have hline := L.lines.stmt hs line List.mem_cons_self
    refine .weaken (.bind ((A.parallel L hs hc hw).atLine L hline) fun _ t hm ht _ => ?_)
    exact .pure ht (ended L hs rfl rfl rfl (L.signals.normal c) (L.stable hc hm))
  | seq body =>
    refine .weaken ((A.inFrame L hs rfl List.mem_cons_self hc hw).imp fun signal t hm hended => ?_)
    refine ⟨L.signals.passes hs rfl rfl hended.1, fun hend => ?_⟩
    obtain ⟨c'', u, hleads, hc'', rfl⟩ := hended.2 hend
    refine L.follows hs rfl rfl ?_ (L.stable hc hm)
    rintro _ ⟨⟩
    exact ⟨c'', _, u, hleads, hc'', rfl⟩
  | client name host port line => exact A.client L hs hc hw
  | server name handler description host port line => exact A.server L hs hc hw

end Parlance.Discipline.Agrees
