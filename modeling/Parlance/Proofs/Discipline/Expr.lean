import Parlance.Proofs.Discipline.Runs

namespace Parlance.Discipline

variable {κ : Type}

-- Evaluation that keeps to a discipline, in `n` steps. The first evaluators can depend on the
-- call that is running; they have the same outcomes as the second.
structure Agrees (D : Discipline κ) (n : Nat) (X : Option Activation → Evaluators)
    (Y : Evaluators) : Prop where
  expr : ∀ {k c env e w}, D.expr n c e → D.holds k c env w → D.Inv w →
    D.Runs env noName ((X k).expr env e) (Y.expr env e) w noMatter
  stmt : ∀ {k c c' env s w}, D.stmt n c s c' → D.holds k c env w → D.Inv w →
    D.Runs env (fun x => s.introduces = some x) ((X k).stmt env s) (Y.stmt env s) w
      fun signal t => D.signal c signal ∧ (signal = .normal → D.holds k c' env t)
  call : ∀ {k k' c env f args w}, D.call n c → D.holds k' c env w →
    D.func f w ∨ f = idle ∧ env = globals → D.Inv w →
    D.Runs env noName ((X k).call env f args) (Y.call env f args) w noMatter
  body : ∀ {k c scope f w}, D.Body n c f.body → (∀ signal, D.signal c signal → D.ends signal) →
    D.holds (some ⟨scope, f⟩) c scope w → D.Inv w →
    D.Runs scope anyName ((X k).body scope f) (Y.body scope f) w fun signal _ => D.ends signal

namespace Agrees

open Eval

variable {D : Discipline κ} {n : Nat} {X : Option Activation → Evaluators} {Y : Evaluators}
  {k : Option Activation} {c : κ} {env : Nat} {e : Expr} {w : World}

theorem operand (A : D.Agrees n X Y) (L : D.Lawful) {x : Expr} (he : D.expr (n + 1) c e)
    (hx : x ∈ e.operands) (hc : D.holds k c env w) (hw : D.Inv w) :
    D.Runs env noName ((X k).expr env x) (Y.expr env x) w noMatter :=
  A.expr (L.operand he x hx) hc hw

theorem operands (A : D.Agrees n X Y) (L : D.Lawful) {xs : List Expr} (he : D.expr (n + 1) c e)
    (hxs : ∀ x ∈ xs, x ∈ e.operands) (hc : D.holds k c env w) (hw : D.Inv w) :
    D.Runs env noName (xs.mapM ((X k).expr env)) (xs.mapM (Y.expr env)) w noMatter :=
  .mapM xs hw fun x hx _ hm ht => A.operand L he (hxs x hx) (L.stable hc hm) ht

-- Two operands, the left one first.
theorem pair (A : D.Agrees n X Y) (L : D.Lawful) {left right : Expr} {β : Type}
    {f g : Value → Value → Exec β} {S : β → World → Prop} (he : D.expr (n + 1) c e)
    (hl : left ∈ e.operands) (hr : right ∈ e.operands) (hc : D.holds k c env w) (hw : D.Inv w)
    (hf : ∀ l r t, w.Moves env noName t → D.Inv t → D.Runs env noName (f l r) (g l r) t S) :
    D.Runs env noName
      (do let l ← (X k).expr env left; let r ← (X k).expr env right; f l r)
      (do let l ← Y.expr env left; let r ← Y.expr env right; g l r) w S := by
  refine .bind (A.operand L he hl hc hw) fun l t hm ht _ => ?_
  refine .bind (A.operand L he hr (L.stable hc hm) ht) fun r u hm' hu _ => ?_
  exact hf l r u (hm.trans hm') hu

theorem name (L : D.Lawful) {token : Token} {ty : Ty} (he : D.expr (n + 1) c (.name token ty))
    (hc : D.holds k c env w) (hw : D.Inv w) :
    D.Runs env noName (name env token) (name env token) w noMatter := by
  refine .get ?_
  cases howner : w.frames.owner? token.lexeme env with
  | none =>
    simp only [Frames.get?, howner]
    exact .stop hw (L.fails (.unbound he hc howner))
  | some owner =>
    obtain ⟨v, hv⟩ := Option.isSome_iff_exists.mp (Frames.binds_of_owner? howner).2
    simp only [Frames.get?, howner, hv]
    exact .pure hw trivial

theorem sliceBound (A : D.Agrees n X Y) (L : D.Lawful) {what : String} {bound : Option Expr}
    (he : D.expr (n + 1) c e) (hx : ∀ x ∈ bound, x ∈ e.operands) (hc : D.holds k c env w)
    (hw : D.Inv w) :
    D.Runs env noName (sliceBound (X k) env what bound) (sliceBound Y env what bound) w
      noMatter := by
  cases bound with
  | none => exact .pure hw trivial
  | some x =>
    refine .bind (A.operand L he (hx x rfl) hc hw) fun v t _ ht _ => ?_
    refine .harmless L ?_ ht
    exact .bind (.of_require (v.asInt_ordinarily what)) fun _ => .of_pure _

theorem slice (A : D.Agrees n X Y) (L : D.Lawful) {target : Expr} {start stop : Option Expr}
    (he : D.expr (n + 1) c (.slice target start stop)) (hc : D.holds k c env w) (hw : D.Inv w) :
    D.Runs env noName (slice (X k) env target start stop) (slice Y env target start stop) w
      noMatter := by
  have hstart : ∀ x ∈ start, x ∈ (Expr.slice target start stop).operands := by
    rintro x rfl
    simp [Expr.operands]
  have hstop : ∀ x ∈ stop, x ∈ (Expr.slice target start stop).operands := by
    rintro x rfl
    simp [Expr.operands]
  refine .bind (A.operand L he List.mem_cons_self hc hw) fun container t hm ht _ => ?_
  refine .bind (A.sliceBound L he hstart (L.stable hc hm) ht) fun first u hm' hu _ => ?_
  have hcu := L.stable hc (hm.trans hm')
  refine .bind (A.sliceBound L he hstop hcu hu) fun last v _ hv _ => ?_
  refine .harmless L ?_ hv
  exact .bind (.of_reading fun h => h.slice_ordinarily _ _ _) fun _ => .of_place _

theorem logical (A : D.Agrees n X Y) (L : D.Lawful) {op : Token} {left right : Expr}
    (he : D.expr (n + 1) c (.logical op left right)) (hc : D.holds k c env w) (hw : D.Inv w) :
    D.Runs env noName (logical (X k) env op.kind left right) (logical Y env op.kind left right) w
      noMatter := by
  refine .bind (A.operand L he List.mem_cons_self hc hw) fun l t hm ht _ => ?_
  have hright := fun {u : World} (hu : t.Moves env noName u) (hi : D.Inv u) =>
    A.operand L he (x := right) (by simp [Expr.operands]) (L.stable hc (hm.trans hu)) hi
  split
  · refine .bind (.harmless L (.of_isTrue l) ht) fun truth u hu hi _ => ?_
    split
    · exact hright hu hi
    · exact .pure hi trivial
  · refine .bind (hright (.refl env noName t) ht) fun r u _ hi _ => ?_
    refine .harmless L ?_ hi
    exact .bind (.of_isTrue l) fun _ => .bind (.of_isTrue r) fun _ => .of_pure _

theorem unary (A : D.Agrees n X Y) (L : D.Lawful) {op : Token} {x : Expr}
    (he : D.expr (n + 1) c (.unary op x)) (hc : D.holds k c env w) (hw : D.Inv w) :
    D.Runs env noName (unary (X k) env op.kind x) (unary Y env op.kind x) w noMatter := by
  refine .bind (A.operand L he List.mem_cons_self hc hw) fun v t _ ht _ => ?_
  refine .harmless L (.of_ite ?_ (.of_require v.negate_ordinarily)) ht
  exact .bind (.of_isTrue v) fun _ => .of_pure _

theorem relational (A : D.Agrees n X Y) (L : D.Lawful) {op : Token} {left right : Expr}
    (he : D.expr (n + 1) c (.relational op left right)) (hc : D.holds k c env w) (hw : D.Inv w) :
    D.Runs env noName (relational (X k) env op.kind left right)
      (relational Y env op.kind left right) w noMatter := by
  refine A.pair L he (by simp [Expr.operands]) (by simp [Expr.operands]) hc hw fun l r t _ ht => ?_
  cases hop : op.kind.isRelational with
  | true => exact .harmless L (.of_reading fun h => h.relational_ordinarily hop l r) ht
  | false =>
    refine .reading ht fun s hs => ?_
    rw [Heap.relational_of_not hop] at hs
    cases hs
    exact L.fails (.relational he hop)

theorem arithmetic (A : D.Agrees n X Y) (L : D.Lawful) {op : Token} {left right : Expr}
    (he : D.expr (n + 1) c (.arithmetic op left right)) (hc : D.holds k c env w) (hw : D.Inv w) :
    D.Runs env noName (arithmetic (X k) env op.kind left right)
      (arithmetic Y env op.kind left right) w noMatter := by
  refine A.pair L he (by simp [Expr.operands]) (by simp [Expr.operands]) hc hw fun l r t _ ht => ?_
  refine .bind (Q := noMatter) ?_ fun _ u _ hu _ => .harmless L (.of_place _) hu
  refine .reading ht fun s hs => ?_
  cases hop : op.kind.isArithmetic with
  | true =>
    rcases Heap.arithmetic_error hop hs with hs | ⟨rfl, hstar, -⟩
    · exact L.ordinary hs
    · exact L.crashes he (by simp [Expr.mayCrash, hstar])
  | false =>
    rcases Heap.arithmetic_of_not hop hs with hs | rfl
    · exact L.ordinary hs
    · exact L.fails (.arithmetic he hop)

-- The handler of a server is one of those in the heap, or there is no such server.
theorem handler (hw : D.Inv w) (server : Nat) :
    D.func (w.heap.server server).handler w ∨ (w.heap.server server).handler = idle := by
  by_cases h : server < w.heap.servers.size
  · refine .inl (hw.servers _ ?_)
    simp only [Heap.server, Array.getD, h, dite_true]
    exact Array.getElem_mem h
  · refine .inr ?_
    simp only [Heap.server, Array.getD, h, dite_false]
    rfl

theorem awaiting (L : D.Lawful) (hfuel : D.allowed .outOfFuel) (i : Nat)
    (read? : Connection → Option (Option String × Connection)) (hw : D.Inv w) :
    D.Runs env noName (awaiting i read?) (awaiting i read?) w fun _ t => w.Quiet t := by
  refine ⟨rfl, ?_⟩
  unfold Eval.awaiting
  split
  · next text rest _ =>
    have hquiet : w.Quiet { w with heap := w.heap.onConnection i fun _ => rest } :=
      .of_heap w rfl fun _ h => h
    exact ⟨hquiet.moves env noName, L.inv_quiet hquiet hw, hquiet⟩
  · exact ⟨.refl env noName w, hw, hfuel⟩

theorem answer? (A : D.Agrees n X Y) (L : D.Lawful) {c₀ : κ} (hcall : D.call n c₀)
    (hc : D.holds none c₀ globals w) (server : Nat) (text : String) (hw : D.Inv w) :
    D.Runs env noName (answer? (X k) server text) (answer? Y server text) w noMatter := by
  have hhandler := (handler hw server).imp_right fun h => And.intro h (rfl : globals = globals)
  refine .get (.bind (.attempt L (.of_globals (A.call hcall hc hhandler hw))) ?_)
  intro r t _ ht _
  cases r with
  | ok v => exact .harmless L (.bind (.of_display v) fun _ => .of_pure _) ht
  | error f => exact .pure ht trivial

theorem turn (A : D.Agrees n X Y) (L : D.Lawful) {c₀ : κ} (hcall : D.call n c₀)
    (hfuel : D.allowed .outOfFuel) (hc : D.holds none c₀ globals w) (i : Nat) (hw : D.Inv w) :
    D.Runs env noName (turn (X k) i) (turn Y i) w noMatter := by
  refine .bind (awaiting L hfuel i Connection.fetch? hw) fun message t _ ht hquiet => ?_
  cases message with
  | none => exact .harmless L (onConnection_harmless i _) ht
  | some text =>
    have hct := L.stable hc (hquiet.moves globals noName)
    refine .get (.bind (A.answer? L hcall hct _ text ht) fun reply u _ hu _ => ?_)
    cases reply with
    | some reply => exact .harmless L (onConnection_harmless i _) hu
    | none => exact .harmless L (onConnection_harmless i _) hu

-- Until its handler is called, a request changes connections only.
theorem request (A : D.Agrees n X Y) (L : D.Lawful) {c₀ : κ} {ref : Nat} (hcall : D.call n c₀)
    (hfuel : D.allowed .outOfFuel)
    (hc : D.holds none c₀ globals { w with heap := w.heap.hold ref true }) (text : String)
    (hw : D.Inv w) :
    D.Runs env noName (request (X k) ref text) (request Y ref text) w noMatter := by
  refine .holding L (fun _ => hfuel) hw (P := noMatter) ?_
  have hheld : D.Inv { w with heap := w.heap.hold ref true } := L.inv_heap rfl hw
  refine .bind (.quiet L (connected_harmless ref) hheld) fun i t _ ht hquiet => ?_
  refine .bind (.quiet L (onConnection_harmless i _) ht) fun _ u _ hu hquiet' => ?_
  have hcu := L.stable hc ((hquiet.trans hquiet').moves globals noName)
  refine .bind (A.turn L hcall hfuel hcu i hu) fun _ v _ hv _ => ?_
  refine .bind (awaiting L hfuel i Connection.collect? hv) fun reply x _ hx _ => ?_
  cases reply with
  | some reply => exact .pure hx trivial
  | none =>
    refine .harmless L ?_ hx
    exact .bind (disconnect_harmless ref) fun _ => .bind .of_get fun _ => .of_fault rfl

theorem send (A : D.Agrees n X Y) (L : D.Lawful) (he : D.expr (n + 1) c e)
    (hname : e.callName? = some Builtin.send.name) (args : List Value) (hc : D.holds k c env w)
    (hw : D.Inv w) : D.Runs env noName (send (X k) args) (send Y args) w noMatter := by
  have hpair := Harmless.of_require (Builtin.two_ordinarily .send args)
  refine .bind (.harmless L hpair hw) fun pair t hm ht _ => ?_
  split
  · refine .bind (.harmless L (.of_display _) ht) fun text u hm' hu _ => ?_
    obtain ⟨c₀, hc₀, hcall⟩ := L.serves he hname (L.stable hc (hm.trans hm'))
    refine .bind (A.request L hcall (L.waits (.send he hname)) (hc₀ _) text hu) fun _ v _ hv _ => ?_
    exact .pure hv trivial
  · exact .harmless L (.of_fault rfl) ht

-- A client that is held is waited for.
theorem close (L : D.Lawful) (he : D.expr (n + 1) c e)
    (hname : e.callName? = some Builtin.close.name) (args : List Value) (hc : D.holds k c env w)
    (hw : D.Inv w) : D.Runs env noName (close args) (close args) w noMatter := by
  have hone := Harmless.of_require (Builtin.one_ordinarily .close args)
  refine .bind (.harmless L hone hw) fun v t hm ht _ => ?_
  split
  · refine .bind (.holding L (fun hheld => ?_) ht (P := noMatter) ?_)
      fun _ u _ hu _ => .pure hu trivial
    · exact L.waits (.close he hname (L.stable hc hm) hheld)
    · exact .harmless L (disconnect_harmless _) (L.inv_heap rfl ht)
  · exact .harmless L (.of_fault rfl) ht

theorem sort (L : D.Lawful) (he : D.expr (n + 1) c e)
    (hname : e.callName? = some Builtin.sort.name) (args : List Value) (hw : D.Inv w) :
    D.Runs env noName (sort args) (sort args) w noMatter := by
  have hlist := Harmless.of_require
    (.bind (Builtin.one_ordinarily .sort args) (Builtin.listOf_ordinarily .sort))
  refine .bind (.harmless L hlist hw) fun ref t _ ht _ => ?_
  refine .bind (.reading ht fun s hs => ?_) fun items u _ hu _ => .harmless L ?_ hu
  · rcases Builtin.sorted_error hs with hs | ⟨rfl, -⟩
    · exact L.ordinary hs
    · refine L.crashes he ?_
      cases e with
      | call | method => simpa [Expr.mayCrash] using hname
      | _ => cases hname
  · exact .bind (.of_modify fun _ => ⟨rfl, rfl, rfl, fun _ h => h⟩) fun _ => .of_pure _

theorem invoke (A : D.Agrees n X Y) (L : D.Lawful) {name : String} (he : D.expr (n + 1) c e)
    (hname : e.callName? = some name) (args : List Value) (hc : D.holds k c env w)
    (hw : D.Inv w) :
    D.Runs env noName (invoke (X k) env name args) (invoke Y env name args) w noMatter := by
  unfold Eval.invoke
  cases hb : Builtin.ofName? name with
  | some b =>
    by_cases hsend : b = .send
    · subst hsend
      rw [Builtin.name_of_ofName? hb] at hname
      exact A.send L he hname args hc hw
    · -- No other built-in function evaluates anything.
      have hsame : builtin (X k) env args b = builtin Y env args b := by
        cases b <;> first | exact absurd rfl hsend | rfl
      simp only [hsame]
      by_cases hclose : b = .close
      · subst hclose
        rw [Builtin.name_of_ofName? hb] at hname
        exact close L he hname args hc hw
      · by_cases hsort : b = .sort
        · subst hsort
          rw [Builtin.name_of_ofName? hb] at hname
          exact sort L he hname args hw
        · exact .harmless L (builtin_harmless Y env args hsend hclose hsort) hw
  | none =>
    refine .get ?_
    cases hf : w.functions.get? name with
    | some f => exact A.call (L.calling he hname) hc (.inl (hw.functions name f hf)) hw
    | none => exact .stop hw (L.fails (.unknown he hname hc hb hf))

theorem plainCall (A : D.Agrees n X Y) (L : D.Lawful) {callee : Token} {ty : Ty}
    {args : List Expr} (he : D.expr (n + 1) c (.call callee ty args)) (hc : D.holds k c env w)
    (hw : D.Inv w) :
    D.Runs env noName (plainCall (X k) env callee.lexeme args)
      (plainCall Y env callee.lexeme args) w noMatter := by
  refine .bind (A.operands L he (fun x hx => hx) hc hw) fun values t hm ht _ => ?_
  exact A.invoke L he rfl values (L.stable hc hm) ht

theorem methodCall (A : D.Agrees n X Y) (L : D.Lawful) {receiver : Expr} {operation : Token}
    {args : List Expr} (he : D.expr (n + 1) c (.method receiver operation args))
    (hc : D.holds k c env w) (hw : D.Inv w) :
    D.Runs env noName (methodCall (X k) env receiver operation.lexeme args)
      (methodCall Y env receiver operation.lexeme args) w noMatter := by
  refine .bind (A.operand L he List.mem_cons_self hc hw) fun v t hm ht _ => ?_
  have hargs : ∀ x ∈ args, x ∈ (Expr.method receiver operation args).operands :=
    fun x hx => List.mem_cons_of_mem receiver hx
  refine .bind (A.operands L he hargs (L.stable hc hm) ht) fun values u hm' hu _ => ?_
  exact A.invoke L he rfl (v :: values) (L.stable hc (hm.trans hm')) hu

theorem entries (A : D.Agrees n X Y) (L : D.Lawful) {es : List (String × Expr)}
    (he : D.expr (n + 1) c e) (hes : ∀ x ∈ es, x.2 ∈ e.operands) (table : Table Value)
    (hc : D.holds k c env w) (hw : D.Inv w) :
    D.Runs env noName (entries (X k) env table es) (entries Y env table es) w noMatter := by
  induction es generalizing table w with
  | nil => exact .pure hw trivial
  | cons entry es ih =>
    refine .bind (A.operand L he (hes entry List.mem_cons_self) hc hw) fun v t hm ht _ => ?_
    exact ih (fun x hx => hes x (List.mem_cons_of_mem entry hx)) _ (L.stable hc hm) ht

theorem assign (A : D.Agrees n X Y) (L : D.Lawful) {equal : Token} {target value : Expr}
    (he : D.expr (n + 1) c (.assign equal target value)) (v : Value) (hc : D.holds k c env w)
    (hw : D.Inv w) :
    D.Runs env noName (assign (X k) env v target) (assign Y env v target) w noMatter := by
  unfold Eval.assign
  split
  · next token ty =>
    refine .get ?_
    cases howner : w.frames.owner? token.lexeme env with
    | some owner => exact .assign L howner hw
    | none =>
      have hallowed := L.fails (.unassigned he hc howner)
      exact .stop hw (L.placed hallowed token.line (L.lines.target he))
  · next container index =>
    refine A.pair L he (by simp [Expr.operands, Expr.places])
      (by simp [Expr.operands, Expr.places]) hc hw fun l r t _ ht => ?_
    have hslot := Harmless.of_reading fun h => h.slot_ordinarily l r
    refine .bind (.atLine L (L.lines.target he) (.harmless L hslot ht)) fun slot u _ hu _ => ?_
    refine .harmless L (.of_modify fun w => ?_) hu
    exact .of_heap w (w.heap.servers_put v slot) fun ref hr => by
      rwa [Heap.client, w.heap.clients_put v slot] at hr
  · next hname haccess =>
    refine .stop hw (L.placed (L.fails (.unassignable he ?_)) target.line (L.lines.target he))
    cases target <;> first | rfl | exact absurd rfl (hname _ _) | exact absurd rfl (haccess _ _)

theorem comprehension (A : D.Agrees n X Y) (L : D.Lawful) {bracket iterator : Token} {ty : Ty}
    {initial : Option Expr} {iterable projection : Expr}
    (he : D.expr (n + 1) c (.comprehension bracket iterator ty initial iterable projection))
    (hc : D.holds k c env w) (hw : D.Inv w) :
    D.Runs env noName (comprehension (X k) env iterator.lexeme iterable projection)
      (comprehension Y env iterator.lexeme iterable projection) w noMatter := by
  refine .bind (A.operand L he List.mem_cons_self hc hw) fun source t hm ht _ => ?_
  refine .bind (.harmless L (.of_reading fun h => h.iterate_ordinarily source) ht) ?_
  intro items u hm' hu _
  refine .bind (.mapM items hu fun item _ v hv hi => ?_) fun _ v _ hv _ =>
    .harmless L (.of_place _) hv
  have hcv := L.stable hc ((hm.trans hm').trans hv)
  refine (Runs.withFrame (P := noMatter) L hcv (.bind
    (Q := fun _ t => t = (v.opened env).defined v.frames.size _ item)
    (.define L trivial (L.inv_opened env hi) rfl) ?_)).imp fun _ _ _ _ => trivial
  rintro _ _ _ hx rfl
  exact .weaken (A.expr (L.projection he) (L.projects item he hcv) hx)

-- One more step of evaluation.
theorem expr_succ (A : D.Agrees n X Y) (L : D.Lawful) (he : D.expr (n + 1) c e)
    (hc : D.holds k c env w) (hw : D.Inv w) :
    D.Runs env noName (Eval.expr (X k) env e) (Eval.expr Y env e) w noMatter := by
  cases e with
  | constant token =>
    refine .reading (f := fun _ => constant token) hw fun s hs => ?_
    rw [constant_error hs]
    exact L.fails (.literal he hs)
  | name token ty => exact name L he hc hw
  | access target index =>
    refine A.pair L he (by simp [Expr.operands]) (by simp [Expr.operands]) hc hw ?_
    intro l r t _ ht
    exact .harmless L (.of_reading fun h => h.index_ordinarily l r) ht
  | slice target start stop => exact A.slice L he hc hw
  | logical op left right => exact A.logical L he hc hw
  | relational op left right => exact A.relational L he hc hw
  | arithmetic op left right => exact A.arithmetic L he hc hw
  | unary op operand => exact A.unary L he hc hw
  | call callee ty args => exact A.plainCall L he hc hw
  | method receiver operation args => exact A.methodCall L he hc hw
  | array bracket items =>
    refine .bind (A.operands L he (fun x hx => hx) hc hw) fun _ t _ ht _ => ?_
    exact .harmless L (.of_place _) ht
  | dict brace es =>
    have hes : ∀ x ∈ es, x.2 ∈ (Expr.dict brace es).operands :=
      fun x hx => List.mem_map_of_mem hx
    refine .bind (A.entries L he hes Table.empty hc hw) fun _ t _ ht _ => ?_
    exact .harmless L (.of_place _) ht
  | assign equal target value =>
    refine .bind (A.operand L he List.mem_cons_self hc hw) fun v t hm ht _ => ?_
    refine .bind (A.assign L he v (L.stable hc hm) ht) fun _ u _ hu _ => ?_
    exact .pure hu trivial
  | comprehension bracket iterator ty initial iterable projection =>
    exact A.comprehension L he hc hw

end Agrees

end Parlance.Discipline
