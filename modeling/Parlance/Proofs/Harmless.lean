import Parlance.Eval.Expr
import Parlance.Proofs.Ordinary

namespace Parlance

-- Two worlds that differ in collections, clients, consoles, listeners and chance only. No client
-- is held in the second one that is not held in the first.
structure World.Quiet (w t : World) : Prop where
  frames : t.frames = w.frames
  functions : t.functions = w.functions
  servers : t.heap.servers = w.heap.servers
  held : ∀ ref, (t.heap.client ref).held = true → (w.heap.client ref).held = true

namespace World.Quiet

variable {w t u : World}

theorem refl (w : World) : w.Quiet w :=
  ⟨rfl, rfl, rfl, fun _ h => h⟩

theorem trans (h : w.Quiet t) (h' : t.Quiet u) : w.Quiet u :=
  ⟨h'.frames.trans h.frames, h'.functions.trans h.functions, h'.servers.trans h.servers,
    fun ref hr => h.held ref (h'.held ref hr)⟩

-- A change of the heap that leaves servers alone and takes no client.
theorem of_heap (w : World) {heap : Heap} (hservers : heap.servers = w.heap.servers)
    (hheld : ∀ ref, (heap.client ref).held = true → (w.heap.client ref).held = true) :
    w.Quiet { w with heap } :=
  ⟨rfl, rfl, hservers, hheld⟩

end World.Quiet

-- A computation that touches neither variables nor functions and fails in ordinary ways only.
structure Harmless {α : Type} (x : Exec α) : Prop where
  ok : ∀ {w a t}, x w = .ok a t → w.Quiet t
  error : ∀ {w s t}, x w = .error s t → w.Quiet t ∧ s.Ordinary

namespace Harmless

open Exec

variable {α β : Type}

theorem of_pure (a : α) : Harmless (pure a : Exec α) where
  ok h := by cases h; exact .refl _
  error h := by cases h

theorem of_fault {cause : RuntimeFault} (h : cause.isOrdinary = true) :
    Harmless (fault cause : Exec α) where
  ok h := by cases h
  error h' := by cases h'; exact ⟨.refl _, Stop.ordinary_runtime h⟩

theorem of_get : Harmless (get : Exec World) where
  ok h := by cases h; exact .refl _
  error h := by cases h

theorem of_modify {f : World → World} (h : ∀ w : World, w.Quiet (f w)) :
    Harmless (modify f : Exec PUnit) where
  ok h' := by cases h'; exact h _
  error h' := by cases h'

theorem of_modifyGet {f : World → α × World} (h : ∀ w : World, w.Quiet (f w).2) :
    Harmless (modifyGet f : Exec α) where
  ok h' := by cases h'; exact h _
  error h' := by cases h'

theorem of_reading {f : Heap → Except Stop α} (h : ∀ heap, Ordinarily (f heap)) :
    Harmless (reading f) where
  ok {w a t} h' := by
    cases hf : f w.heap with
    | ok b => simp only [reading, hf] at h'; cases h'; exact .refl _
    | error s => simp only [reading, hf] at h'; cases h'
  error {w s t} h' := by
    cases hf : f w.heap with
    | ok b => simp only [reading, hf] at h'; cases h'
    | error e => simp only [reading, hf] at h'; cases h'; exact ⟨.refl _, h _ _ hf⟩

theorem of_require {x : Except Stop α} (h : Ordinarily x) : Harmless (require x) :=
  of_reading fun _ => h

theorem bind {x : Exec α} {f : α → Exec β} (hx : Harmless x) (hf : ∀ a, Harmless (f a)) :
    Harmless (x >>= f) where
  ok {w b t} h := by
    rw [bind_apply] at h
    cases hxw : x w with
    | ok a u => rw [hxw] at h; exact (hx.ok hxw).trans ((hf a).ok h)
    | error s u => rw [hxw] at h; cases h
  error {w s t} h := by
    rw [bind_apply] at h
    cases hxw : x w with
    | ok a u =>
      rw [hxw] at h
      have ⟨hq, hs⟩ := (hf a).error h
      exact ⟨(hx.ok hxw).trans hq, hs⟩
    | error s' u =>
      rw [hxw] at h
      cases h
      exact hx.error hxw

-- Whatever the host answers.
theorem of_ask {question : Host → Nat → α} {f : α → Exec β}
    (hf : ∀ host turn, Harmless (f (question host turn))) : Harmless (ask question >>= f) where
  ok {w a t} h := by
    rw [bind_apply, ask_apply] at h
    have hquiet := (hf _ _).ok h
    exact ⟨hquiet.frames, hquiet.functions, hquiet.servers, hquiet.held⟩
  error {w s t} h := by
    rw [bind_apply, ask_apply] at h
    obtain ⟨hquiet, hs⟩ := (hf _ _).error h
    exact ⟨⟨hquiet.frames, hquiet.functions, hquiet.servers, hquiet.held⟩, hs⟩

theorem of_ite {p : Prop} [Decidable p] {x y : Exec α} (hx : Harmless x) (hy : Harmless y) :
    Harmless (if p then x else y) := by
  split
  · exact hx
  · exact hy

theorem of_mapM {f : α → Exec β} (hf : ∀ a, Harmless (f a)) (as : List α) :
    Harmless (as.mapM f) := by
  induction as with
  | nil => exact .of_pure []
  | cons a as ih =>
    rw [List.mapM_cons]
    exact .bind (hf a) fun _ => .bind ih fun _ => .of_pure _

theorem of_place (d : Draft) : Harmless (place d) := by
  cases d with
  | value v => exact .of_pure v
  | list items => exact .of_modifyGet fun _ => ⟨rfl, rfl, rfl, fun _ h => h⟩
  | dict entries => exact .of_modifyGet fun _ => ⟨rfl, rfl, rfl, fun _ h => h⟩

theorem of_write (text : String) : Harmless (write text) :=
  .of_modify fun _ => ⟨rfl, rfl, rfl, fun _ h => h⟩

theorem of_display (v : Value) : Harmless (display v) where
  ok h := by cases h; exact .refl _
  error h := by cases h

theorem of_isTrue (v : Value) : Harmless (isTrue v) where
  ok h := by cases h; exact .refl _
  error h := by cases h

theorem of_option {f : Option α → Exec β} (hsome : ∀ a, Harmless (f (some a)))
    (hnone : Harmless (f none)) (o : Option α) : Harmless (f o) := by
  cases o with
  | some a => exact hsome a
  | none => exact hnone

end Harmless

namespace Eval

open Exec

theorem ofValue_harmless (b : Builtin) (args : List Value)
    {f : Heap → Value → Except Stop Value} (hf : ∀ h v, Ordinarily (f h v)) :
    Harmless (ofValue b args f) :=
  .of_reading fun h => .bind (b.one_ordinarily args) (hf h)

theorem ofText_harmless (b : Builtin) (args : List Value) (f : String → Value) :
    Harmless (ofText b args f) :=
  ofValue_harmless b args fun _ _ => .of_pure _

theorem print_harmless (args : List Value) : Harmless (print args) :=
  .bind (.of_mapM .of_display args) fun _ => .bind (.of_write _) fun _ => .of_pure _

theorem readLine_harmless : Harmless readLine :=
  .of_modifyGet fun _ => ⟨rfl, rfl, rfl, fun _ h => h⟩

theorem input_harmless (args : List Value) : Harmless (input args) := by
  unfold input
  split
  · exact .bind readLine_harmless (.of_option (fun _ => .of_pure _) (.of_fault rfl))
  · exact .bind (.of_display _) fun _ => .bind (.of_write _) fun _ =>
      .bind readLine_harmless (.of_option (fun _ => .of_pure _) (.of_fault rfl))
  · exact .bind (.of_fault rfl) fun _ =>
      .bind readLine_harmless (.of_option (fun _ => .of_pure _) (.of_fault rfl))

theorem sleep_harmless (args : List Value) : Harmless (sleep args) :=
  .bind (.of_require (Builtin.one_ordinarily _ args)) fun v =>
    .bind (.of_require (v.asFloat_ordinarily _)) fun _ => .of_ite (.of_pure _) (.of_fault rfl)

theorem debug_harmless (env : Nat) (args : List Value) : Harmless (debug env args) :=
  .bind .of_get fun _ => .bind (.of_write _) fun _ => .of_pure _

theorem disconnect_harmless (ref : Nat) : Harmless (disconnect ref) :=
  .of_modify fun w => .of_heap w (w.heap.servers_leave ref) fun other h =>
    w.heap.held_leave ref other ▸ h

theorem onConnection_harmless (k : Nat) (f : Connection → Connection) :
    Harmless (onConnection k f) :=
  .of_modify fun _ => ⟨rfl, rfl, rfl, fun _ h => h⟩

theorem connected_harmless (ref : Nat) : Harmless (connected ref) := by
  refine .bind .of_get fun w => ?_
  dsimp only
  split
  · exact .of_pure _
  · refine .of_ask fun host turn => ?_
    split
    · refine .bind (.of_modify fun w => ?_) fun _ => .of_pure _
      exact .of_heap w rfl fun other h => w.heap.held_dial ref _ other ▸ h
    · exact .of_fault rfl

theorem serve_harmless (ref : Nat) : Harmless (serve ref) := by
  refine .bind .of_get fun w => .of_ask fun host turn => ?_
  split
  · exact .of_modify fun _ => ⟨rfl, rfl, rfl, fun _ h => h⟩
  · exact .of_fault rfl

theorem listen_harmless (args : List Value) : Harmless (listen args) := by
  refine .bind (.of_require (Builtin.one_ordinarily _ args)) fun v => ?_
  split
  · exact .bind (serve_harmless _) fun _ => .of_pure _
  · exact .of_fault rfl

theorem intersection_harmless (args : List Value) : Harmless (intersection args) := by
  refine .bind (.of_require (Builtin.two_ordinarily _ args)) fun pair => ?_
  split
  · exact .bind .of_get fun _ => .of_place _
  · exact .of_fault rfl

theorem append_harmless (args : List Value) : Harmless (append args) :=
  .bind (.of_require (Builtin.two_ordinarily _ args)) fun _ =>
    .bind (.of_require (Builtin.listOf_ordinarily _ _)) fun _ =>
      .bind (.of_modify fun _ => ⟨rfl, rfl, rfl, fun _ h => h⟩) fun _ => .of_pure _

theorem keys_harmless (args : List Value) : Harmless (keys args) := by
  refine .bind (.of_require (Builtin.one_ordinarily _ args)) fun v => ?_
  split
  · exact .bind .of_get fun _ => .of_place _
  · exact .of_fault rfl

theorem random_harmless (args : List Value) : Harmless (random args) :=
  .of_ask fun host turn => .of_require (Builtin.draw_ordinarily host.draws turn args)

-- All built-in functions are harmless but `send`, which calls the handler of a server,
-- `close`, which can wait forever, and `sort`, which can crash.
theorem builtin_harmless (ev : Evaluators) (env : Nat) (args : List Value) {b : Builtin}
    (hsend : b ≠ .send) (hclose : b ≠ .close) (hsort : b ≠ .sort) :
    Harmless (builtin ev env args b) := by
  unfold builtin
  cases b with
  | print => exact print_harmless args
  | input => exact input_harmless args
  | sleep => exact sleep_harmless args
  | debug => exact debug_harmless env args
  | toNumber => exact ofValue_harmless _ args fun _ => Builtin.number_ordinarily
  | toBool => exact ofValue_harmless _ args fun _ _ => .of_pure _
  | toText | isAlpha | isNumeral | strip | lower => exact ofText_harmless _ args _
  | send => exact absurd rfl hsend
  | close => exact absurd rfl hclose
  | listen => exact listen_harmless args
  | len | isEmpty =>
    exact ofValue_harmless _ args fun h v => .bind (Builtin.length_ordinarily h v) fun _ =>
      .of_pure _
  | sum =>
    exact ofValue_harmless _ args fun _ v => .bind (Builtin.listOf_ordinarily _ v) fun _ =>
      Builtin.total_ordinarily _
  | intersection => exact intersection_harmless args
  | contains =>
    exact .of_reading fun h => .bind (Builtin.two_ordinarily _ args) fun pair =>
      .bind (Builtin.holds_ordinarily h _ _) fun _ => .of_pure _
  | append => exact append_harmless args
  | sort => exact absurd rfl hsort
  | keys => exact keys_harmless args
  | split => exact .bind (.of_require (Builtin.pieces_ordinarily args)) fun _ => .of_place _
  | pow =>
    exact .of_require (.bind (Builtin.two_ordinarily _ args) fun _ => Builtin.power_ordinarily _ _)
  | sqrt => exact ofValue_harmless _ args fun _ => Builtin.root_ordinarily
  | exp => exact ofValue_harmless _ args fun _ => Builtin.exponential_ordinarily
  | range => exact .bind (.of_require (Builtin.terms_ordinarily args)) fun _ => .of_place _
  | random => exact random_harmless args

-- The only literal without a value is a number that cannot be read.
theorem constant_error {token : Token} {s : Stop} (h : constant token = .error s) :
    s = .fault (.runtime (.invalidNumber token.lexeme)) := by
  unfold constant at h
  split at h
  · split at h <;> cases h
    rfl
  · cases h
  · cases h

end Eval

end Parlance
