import Parlance.Proofs.Simulation

namespace Parlance.Simulation

open Tracks

variable {M : Simulation} {ev ev' : Evaluators}

section Builtin

variable (L : M.Lawful)

include L

theorem print (args : List Value) : M.Tracks (Eval.print args) (Eval.print args) := by
  apply (of_mapM L of_display args).bind L
  intro texts
  exact (of_write L _).bind L fun _ => of_pure _

theorem input (args : List Value) : M.Tracks (Eval.input args) (Eval.input args) := by
  unfold Eval.input
  split
  · apply (of_readLine L).bind L
    exact of_option (fun _ => of_pure _) (of_stop L _)
  · apply (of_display _).bind L
    intro text
    apply (of_write L text).bind L
    intro _
    apply (of_readLine L).bind L
    exact of_option (fun _ => of_pure _) (of_stop L _)
  · exact of_stop_bind L _ _ _

theorem sleep (args : List Value) : M.Tracks (Eval.sleep args) (Eval.sleep args) := by
  apply (of_require L _).bind L
  intro v
  apply (of_require L _).bind L
  intro seconds
  exact of_ite (of_pure _) (of_stop L _)

theorem debug (env : Nat) (args : List Value) :
    M.Tracks (Eval.debug env args) (Eval.debug env args) := by
  apply of_get
  intro w _
  exact (of_write L _).bind L fun _ => of_pure _

-- A client that does not exist has no address.
omit L in
theorem request_of_absent {w : World} {ref : Nat} (h : w.heap.clients.size ≤ ref)
    {reason : String}
    (hreason : w.options.host.network.connect w.asked w.listeners ⟨"", 0⟩ = .error reason)
    (message : String) :
    Eval.request ev ref message w =
      .error (.fault (.runtime (.cannotConnect (Endpoint.text ⟨"", 0⟩) reason)))
        { w with asked := w.asked + 1 } := by
  have hclient : w.heap.client ref = .fresh ⟨"", 0⟩ := by
    simp [Heap.client, Array.getElem?_eq_none h]
  have hsame : ∀ held, w.heap.hold ref held = w.heap := fun _ => Heap.onClient_of_le h _
  have hconnected : Eval.connected ref w =
      .error (.fault (.runtime (.cannotConnect (Endpoint.text ⟨"", 0⟩) reason)))
        { w with asked := w.asked + 1 } := by
    rw [Eval.connected, Exec.bind_apply, Exec.get_apply]
    simp only [hclient, Client.fresh, Exec.bind_apply, Exec.ask_apply, hreason]
    rfl
  rw [Eval.request, Eval.holding, hclient, if_neg (by simp [Client.fresh]), hsame,
    Exec.bind_apply, hconnected]
  simp only [hsame]

omit L in
theorem holding_disconnect (ref : Nat) (w : World) :
    Eval.holding ref (Eval.disconnect ref) w =
      if (w.heap.client ref).held then .error .outOfFuel w
      else .ok () { w with heap := w.heap.leave ref } := by
  unfold Eval.holding
  split
  · rfl
  · next hheld =>
    have hleave := Heap.leave_of_held (Bool.eq_false_iff.mpr hheld)
    rw [← hleave]
    rfl

theorem close (args : List Value) : M.Tracks (Eval.close args) (Eval.close args) := by
  apply (of_require L _).bind L
  intro v
  split
  · next ref =>
    refine Tracks.bind L ⟨fun {w a t} hw h => ?_, fun {w s t} hw h => ?_⟩ fun _ => of_pure _
    · rw [holding_disconnect] at h ⊢
      split at h
      · cases h
      · next hheld =>
        cases h
        exact ⟨L.closes hw (Bool.eq_false_iff.mpr hheld), if_neg hheld⟩
    · rw [holding_disconnect] at h ⊢
      split at h
      · next hheld =>
        cases h
        have hswitched : ((w.switched M.switch).heap.client ref).held = true := hheld
        rw [if_pos hswitched]
        exact L.same hw _
      · cases h
  · exact of_stop L _

theorem serve (ref : Nat) : M.Tracks (Eval.serve ref) (Eval.serve ref) where
  ok {w a t} hw h := by
    rw [Eval.serve_apply] at h ⊢
    cases hrefused : w.options.host.network.refusal? w.asked w.listeners
        (w.heap.server ref).endpoint with
    | none =>
      simp only [World.switched, hrefused] at h ⊢
      cases h
      exact ⟨L.asks (L.listens hw hrefused) _, rfl⟩
    | some reason =>
      simp only [hrefused] at h
      cases h
  error {w s t} hw h := by
    rw [Eval.serve_apply] at h ⊢
    cases hrefused : w.options.host.network.refusal? w.asked w.listeners
        (w.heap.server ref).endpoint with
    | none =>
      simp only [hrefused] at h
      cases h
    | some reason =>
      simp only [World.switched, hrefused] at h ⊢
      cases h
      exact L.same (L.asks hw _) _

theorem listen (args : List Value) : M.Tracks (Eval.listen args) (Eval.listen args) := by
  apply (of_require L _).bind L
  intro v
  split
  · exact (serve L _).bind L fun _ => of_pure _
  · exact of_stop L _

theorem intersection (args : List Value) :
    M.Tracks (Eval.intersection args) (Eval.intersection args) := by
  apply (of_require L _).bind L
  intro pair
  split
  · exact of_get fun _ _ => of_place L _
  · exact of_stop L _

theorem append (args : List Value) : M.Tracks (Eval.append args) (Eval.append args) := by
  apply (of_require L _).bind L
  intro pair
  apply (of_require L _).bind L
  intro ref
  exact Tracks.bind L (of_modify (fun _ => rfl) fun _ hw => L.heap hw _ rfl rfl rfl (.of_eq rfl))
    fun _ => of_pure _

theorem sort (args : List Value) : M.Tracks (Eval.sort args) (Eval.sort args) := by
  apply (of_require L _).bind L
  intro ref
  apply (of_reading L _).bind L
  intro items
  exact Tracks.bind L (of_modify (fun _ => rfl) fun _ hw => L.heap hw _ rfl rfl rfl (.of_eq rfl))
    fun _ => of_pure _

theorem keys (args : List Value) : M.Tracks (Eval.keys args) (Eval.keys args) := by
  apply (of_require L _).bind L
  intro v
  split
  · exact of_get fun _ _ => of_place L _
  · exact of_stop L _

theorem random (args : List Value) : M.Tracks (Eval.random args) (Eval.random args) := by
  apply (of_ask L _).bind L
  intro number
  exact of_require L number

theorem ofValue (b : Builtin) (args : List Value) (f : Heap → Value → Except Stop Value) :
    M.Tracks (Eval.ofValue b args f) (Eval.ofValue b args f) :=
  of_reading L _

-- Only `send` runs anything that the program defines.
theorem builtin (hsend : ∀ args, M.Tracks (Eval.send ev args) (Eval.send ev' args)) (env : Nat)
    (args : List Value) (b : Builtin) :
    M.Tracks (Eval.builtin ev env args b) (Eval.builtin ev' env args b) := by
  unfold Eval.builtin
  cases b with
  | print => exact print L args
  | input => exact input L args
  | sleep => exact sleep L args
  | debug => exact debug L env args
  | send => exact hsend args
  | close => exact close L args
  | listen => exact listen L args
  | intersection => exact intersection L args
  | append => exact append L args
  | sort => exact sort L args
  | keys => exact keys L args
  | split => exact (of_require L _).bind L fun _ => of_place L _
  | range => exact (of_require L _).bind L fun _ => of_place L _
  | random => exact random L args
  | toText | isAlpha | isNumeral | strip | lower => exact ofValue L _ args _
  | toNumber | toBool | len | isEmpty | sum | sqrt | exp => exact ofValue L _ args _
  | contains => exact of_reading L _
  | pow => exact of_require L _

end Builtin

section

-- What expressions and statements do with the evaluations of what they contain.
variable (L : M.Lawful) (T : M.Tied ev ev')
  (hsend : ∀ args, M.Tracks (Eval.send ev args) (Eval.send ev' args))
  (hparallel : ∀ env body, M.Tracks (Eval.parallel ev env body) (Eval.parallel ev' env body))

include L T

theorem sliceBound (env : Nat) (what : String) (bound : Option Expr) :
    M.Tracks (Eval.sliceBound ev env what bound) (Eval.sliceBound ev' env what bound) := by
  cases bound with
  | none => exact of_pure _
  | some e =>
    apply (T.expr env e).bind L
    intro v
    exact (of_require L _).bind L fun _ => of_pure _

theorem logical (env : Nat) (op : TokenKind) (left right : Expr) :
    M.Tracks (Eval.logical ev env op left right) (Eval.logical ev' env op left right) := by
  apply (T.expr env left).bind L
  intro l
  apply of_ite
  · apply (of_isTrue l).bind L
    intro _
    exact of_ite (T.expr env right) (of_pure l)
  · apply (T.expr env right).bind L
    intro r
    apply (of_isTrue l).bind L
    intro _
    exact (of_isTrue r).bind L fun _ => of_pure _

include hsend in
theorem invoke (env : Nat) (name : String) (args : List Value) :
    M.Tracks (Eval.invoke ev env name args) (Eval.invoke ev' env name args) := by
  unfold Eval.invoke
  split
  · exact builtin L hsend env args _
  · apply of_get
    intro w hw
    dsimp only [World.switched]
    split
    · next f hf => exact T.call env (L.functions hw hf) args
    · exact of_stop L _

theorem entries (env : Nat) (table : Table Value) (es : List (String × Expr)) :
    M.Tracks (Eval.entries ev env table es) (Eval.entries ev' env table es) := by
  induction es generalizing table with
  | nil => exact of_pure table
  | cons entry rest ih => exact (T.expr env entry.2).bind L fun v => ih _

theorem assign (env : Nat) (v : Value) {eq : Token} {target value : Expr}
    (hstores : (Expr.assign eq target value).isStore = true → M.Stores) :
    M.Tracks (Eval.assign ev env v target) (Eval.assign ev' env v target) := by
  unfold Eval.assign
  split
  · apply of_get
    intro w _
    dsimp only [World.switched]
    split
    · exact of_define L _ _ v
    · exact of_stop L _
  · next container index =>
    apply (T.expr env container).bind L
    intro c
    apply (T.expr env index).bind L
    intro i
    apply (Tracks.atLine L _ (of_reading L _)).bind L
    intro slot
    exact of_modify (fun _ => rfl) fun w hw => hstores rfl hw v slot
  · exact of_stop L _

theorem comprehension (env : Nat) (iterator : String) (iterable projection : Expr) :
    M.Tracks (Eval.comprehension ev env iterator iterable projection)
      (Eval.comprehension ev' env iterator iterable projection) := by
  apply (T.expr env iterable).bind L
  intro source
  apply (of_reading L _).bind L
  intro items
  have hitem : ∀ item, M.Tracks
      (Exec.withFrame env fun scope => do
        Exec.define scope iterator item
        ev.expr scope projection)
      (Exec.withFrame env fun scope => do
        Exec.define scope iterator item
        ev'.expr scope projection) := by
    intro item
    apply Tracks.withFrame L
    intro scope
    exact (of_define L scope iterator item).bind L fun _ => T.expr scope projection
  apply (of_mapM L hitem items).bind L
  intro values
  exact of_place L _

include hsend in
theorem expr (env : Nat) (e : Expr) (hstores : e.isStore = true → M.Stores) :
    M.Tracks (Eval.expr ev env e) (Eval.expr ev' env e) := by
  cases e with
  | constant token => exact of_require L _
  | name token ty =>
    apply of_get
    intro w _
    dsimp only [World.switched]
    split
    · exact of_pure _
    · exact of_stop L _
  | access target index =>
    apply (T.expr env target).bind L
    intro container
    apply (T.expr env index).bind L
    intro i
    exact of_reading L _
  | slice target start stop =>
    apply (T.expr env target).bind L
    intro container
    apply (sliceBound L T env _ start).bind L
    intro start
    apply (sliceBound L T env _ stop).bind L
    intro stop
    exact (of_reading L _).bind L fun d => of_place L d
  | logical op left right => exact logical L T env op.kind left right
  | relational op left right =>
    apply (T.expr env left).bind L
    intro l
    apply (T.expr env right).bind L
    intro r
    exact of_reading L _
  | arithmetic op left right =>
    apply (T.expr env left).bind L
    intro l
    apply (T.expr env right).bind L
    intro r
    exact (of_reading L _).bind L fun d => of_place L d
  | unary op operand =>
    apply (T.expr env operand).bind L
    intro v
    apply of_ite
    · exact (of_isTrue v).bind L fun _ => of_pure _
    · exact of_require L _
  | call callee ty args =>
    apply (of_mapM L (T.expr env) args).bind L
    intro values
    exact invoke L T hsend env _ values
  | method receiver operation args =>
    apply (T.expr env receiver).bind L
    intro v
    apply (of_mapM L (T.expr env) args).bind L
    intro values
    exact invoke L T hsend env _ (v :: values)
  | array bracket items =>
    apply (of_mapM L (T.expr env) items).bind L
    intro values
    exact of_place L _
  | dict brace es =>
    apply (entries L T env _ es).bind L
    intro table
    exact of_place L _
  | assign equal target value =>
    apply (T.expr env value).bind L
    intro v
    exact (assign L T env v hstores).bind L fun _ => of_pure v
  | comprehension bracket iterator ty init iterable projection =>
    exact comprehension L T env _ iterable projection

theorem block (env : Nat) {body : List Stmt} (h : ∀ s ∈ body, M.sound s) :
    M.Tracks (Eval.block ev env body) (Eval.block ev' env body) := by
  induction body with
  | nil => exact of_pure _
  | cons s rest ih =>
    obtain ⟨hs, hrest⟩ := List.forall_mem_cons.mp h
    apply (T.stmt env hs).bind L
    intro signal
    cases signal with
    | normal => exact ih hrest
    | ret v | brk | cont => exact of_pure _

theorem defaults (env : Nat) (params : List Param) :
    M.Tracks (Eval.defaults ev env params) (Eval.defaults ev' env params) := by
  induction params with
  | nil => exact of_pure _
  | cons p rest ih =>
    rw [Eval.defaults, Eval.defaults]
    cases p.default with
    | none => exact ih
    | some e =>
      apply (T.expr env e).bind L
      intro v
      exact (of_define L env p.name v).bind L fun _ => ih

omit T in
theorem bindAll (env : Nat) (params : List Param) (values : List Value) :
    M.Tracks (Eval.bindAll env params values) (Eval.bindAll env params values) := by
  induction params generalizing values with
  | nil => exact of_pure _
  | cons p params ih =>
    cases values with
    | nil => exact of_pure _
    | cons v values => exact (of_define L env p.name v).bind L fun _ => ih values

theorem call (env : Nat) {f : Function} (h : ∀ s ∈ f.body, M.sound s) (args : List Value) :
    M.Tracks (Eval.call ev env f args) (Eval.call ev' env f args) := by
  apply Tracks.withFrame L
  intro scope
  apply of_get
  intro w _
  apply of_ite
  · exact of_stop_bind L _ _ _
  · apply (defaults L T scope f.params).bind L
    intro _
    apply (bindAll L scope f.params args).bind L
    intro _
    cases Eval.missing? f.params args.length with
    | some p => exact of_stop L _
    | none => exact (T.body scope h).bind L fun _ => of_pure _

theorem inFrame (env : Nat) {body : List Stmt} (h : ∀ s ∈ body, M.sound s) :
    M.Tracks (Eval.inFrame ev env body) (Eval.inFrame ev' env body) :=
  Tracks.withFrame L fun scope => block L T scope h

-- The second way may repeat a loop more often if it has more fuel.
theorem loop (env : Nat) (condition : Expr) {body : List Stmt} (h : ∀ s ∈ body, M.sound s)
    {bound bound' : Nat} (hbound : M.Fueled bound bound') :
    M.Tracks (Eval.loop ev env condition body bound) (Eval.loop ev' env condition body bound') := by
  induction bound generalizing bound' with
  | zero =>
    rcases hbound.zero with rfl | hmore
    · exact of_stop L _
    · exact of_spent L hmore
  | succ bound ih =>
    obtain ⟨bound', rfl, hless⟩ := hbound.succ
    apply (T.expr env condition).bind L
    intro v
    apply (of_isTrue v).bind L
    intro _
    apply of_ite
    · apply (inFrame L T env h).bind L
      intro signal
      cases signal with
      | normal | cont => exact ih hless
      | ret v | brk => exact of_pure _
    · exact of_pure _

theorem eachItem (env : Nat) (iterator : String) {body : List Stmt}
    (h : ∀ s ∈ body, M.sound s) (items : List Value) :
    M.Tracks (Eval.eachItem ev env iterator body items)
      (Eval.eachItem ev' env iterator body items) := by
  induction items with
  | nil => exact of_pure _
  | cons item rest ih =>
    have hitem : M.Tracks
        (Exec.withFrame env fun scope => do
          Exec.define scope iterator item
          Eval.block ev scope body)
        (Exec.withFrame env fun scope => do
          Exec.define scope iterator item
          Eval.block ev' scope body) := by
      apply Tracks.withFrame L
      intro scope
      exact (of_define L scope iterator item).bind L fun _ => block L T scope h
    apply hitem.bind L
    intro signal
    cases signal with
    | normal | cont => exact ih
    | ret v | brk => exact of_pure _

theorem endpoint (env : Nat) (host port : Expr) :
    M.Tracks (Eval.endpoint ev env host port) (Eval.endpoint ev' env host port) := by
  apply (T.expr env host).bind L
  intro host
  apply (of_require L _).bind L
  intro host
  apply (T.expr env port).bind L
  intro port
  exact (of_require L _).bind L fun _ => of_pure _

include hparallel in
theorem stmt (env : Nat) {s : Stmt} (hs : M.sound s) {bound bound' : Nat}
    (hbound : M.Fueled bound bound') :
    M.Tracks (Eval.stmt ev bound env s) (Eval.stmt ev' bound' env s) := by
  have hbodies := L.bodies hs
  cases s with
  | expression e => exact (T.expr env e).bind L fun _ => of_pure _
  | declaration d =>
    obtain ⟨name, ty, init⟩ := d
    cases init with
    | some e =>
      apply (T.expr env e).bind L
      intro v
      exact (of_define L env _ v).bind L fun _ => of_pure _
    | none =>
      apply (of_place L _).bind L
      intro v
      exact (of_define L env _ v).bind L fun _ => of_pure _
  | function name returns params body line =>
    exact Tracks.bind L (of_modify (fun _ => rfl) fun _ hw => L.learned hs hw) fun _ => of_pure _
  | ret value line =>
    cases value with
    | some e => exact (T.expr env e).bind L fun _ => of_pure _
    | none => exact of_pure _
  | branch condition yes no =>
    apply (T.expr env condition).bind L
    intro v
    apply (of_isTrue v).bind L
    intro _
    apply of_ite
    · exact inFrame L T env (hbodies yes List.mem_cons_self)
    · cases no with
      | some no => exact inFrame L T env (hbodies no (by simp [Stmt.bodies, Stmt.blocks]))
      | none => exact of_pure _
  | loop condition body => exact loop L T env condition (hbodies body List.mem_cons_self) hbound
  | each iterator iterable body =>
    apply (T.expr env iterable).bind L
    intro source
    apply (Tracks.atLine L _ (of_reading L _)).bind L
    intro items
    exact eachItem L T env _ (hbodies body List.mem_cons_self) items
  | brk | cont => exact of_pure _
  | par body line => exact (Tracks.atLine L line (hparallel env body)).bind L fun _ => of_pure _
  | seq body => exact inFrame L T env (hbodies body List.mem_cons_self)
  | client name host port line =>
    apply (Tracks.atLine L line (endpoint L T env host port)).bind L
    intro e
    refine Tracks.bind L (of_modifyGet (fun _ => rfl) fun _ hw => L.client hs hw e) fun v => ?_
    exact (of_define L env name v).bind L fun _ => of_pure _
  | server name handler description host port line =>
    apply of_get
    intro w _
    dsimp only [World.switched]
    split
    · exact of_stop L _
    · apply (T.expr env description).bind L
      intro d
      apply (Tracks.atLine L line (of_require L _)).bind L
      intro d
      apply (Tracks.atLine L line (endpoint L T env host port)).bind L
      intro e
      refine Tracks.bind L (of_modifyGet (fun _ => rfl) fun _ hw => L.server hw _) fun v => ?_
      exact (of_define L env name v).bind L fun _ => of_pure _

theorem run {p : Program} (h : ∀ s ∈ p, M.sound s) :
    M.Tracks (runWith ev p) (runWith ev' p) := by
  induction p with
  | nil => exact of_pure _
  | cons s rest ih =>
    obtain ⟨hs, hrest⟩ := List.forall_mem_cons.mp h
    apply (T.stmt globals hs).bind L
    intro signal
    cases signal with
    | normal => exact ih hrest
    | ret v | brk | cont => exact of_stop L _

end

-- Without fuel there is nothing to compare.
theorem tied_zero {M : Simulation} (L : M.Lawful) {m : Nat} (h : M.Fueled 0 m) :
    M.Tied (evaluators 0) (evaluators m) := by
  rcases h.zero with rfl | hmore
  · rw [evaluators_zero]
    exact
      { expr := fun _ _ => of_stop L _
        stmt := fun _ _ _ => of_stop L _
        call := fun _ _ _ _ => of_stop L _
        body := fun _ _ _ => of_stop L _ }
  · rw [evaluators_zero]
    exact
      { expr := fun _ _ => of_spent L hmore
        stmt := fun _ _ _ => of_spent L hmore
        call := fun _ _ _ _ => of_spent L hmore
        body := fun _ _ _ => of_spent L hmore }

-- Evaluation does the same in both ways, if `send` and parallel blocks do.
theorem tied {M : Simulation} (L : M.Lawful) (hstores : M.Stores)
    (hsend : ∀ {n m}, M.Tied (evaluators n) (evaluators m) → ∀ args,
      M.Tracks (Eval.send (evaluators n) args) (Eval.send (evaluators m) args))
    (hparallel : ∀ {n m}, M.Tied (evaluators n) (evaluators m) → ∀ env body,
      M.Tracks (Eval.parallel (evaluators n) env body) (Eval.parallel (evaluators m) env body))
    {n m : Nat} (h : M.Fueled n m) : M.Tied (evaluators n) (evaluators m) := by
  induction n generalizing m with
  | zero => exact tied_zero L h
  | succ n ih =>
    obtain ⟨m, rfl, hless⟩ := h.succ
    have T := ih hless
    rw [evaluators_succ, evaluators_succ]
    exact
      { expr := fun env e => Tracks.atLine L e.line
          (expr L T (hsend T) env e fun _ => hstores)
        stmt := fun env _ hs => stmt L T (hparallel T) env hs hless
        call := fun env _ hf args => call L T env hf args
        body := fun scope _ hf => block L T scope hf }

end Parlance.Simulation
