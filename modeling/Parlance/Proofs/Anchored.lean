import Parlance.Host.Local
import Parlance.Proofs.ControlFlow
import Parlance.Proofs.Lexing.Layout
import Parlance.Proofs.Typing.Anchored

namespace Parlance

-- A text has one line more than it has line ends.
def Text.HasLine (source : String) (line : Nat) : Prop :=
  1 ≤ line ∧ line ≤ 1 + source.toList.count '\n'

theorem hasLine_of_mem_lex {source : String} {token : Token} (h : token ∈ lex source) :
    Text.HasLine source token.line := by
  obtain ⟨margin, spots, hlaid⟩ := Lexer.exists_laid 1 source.toList
  unfold Text.HasLine
  rw [lex, hlaid.tokens] at h
  rcases List.mem_append.mp h with h | h
  · obtain ⟨⟨t, gap⟩, hspot, rfl⟩ := List.mem_map.mp h
    obtain ⟨before, after, hspots⟩ := List.append_of_mem hspot
    have hline : t.line = _ := (hlaid.spot before t gap after hspots).place
    have htext : source.toList = margin ++ Lexer.spread before ++ t.text ++
        (gap ++ Lexer.spread after) := by
      rw [hlaid.text, hspots]
      simp [Lexer.spread]
    rw [htext, List.count_append, hline]
    omega
  · cases List.mem_singleton.mp h
    simp

theorem start_marked {M : Mark} {source : String} (h : ∀ token ∈ lex source, token.Has M) :
    (Grammar.State.start (lex source)).Marked M := by
  cases hlex : lex source with
  | nil =>
    obtain ⟨token, htoken, -⟩ := lex_ends source
    rw [hlex] at htoken
    cases htoken
  | cons token rest =>
    rw [hlex] at h
    obtain ⟨htoken, hrest⟩ := List.forall_mem_cons.mp h
    exact ⟨htoken, hrest⟩

-- What the tokens of a text have in common, the programs have too.
theorem marked_of_parse {M : Mark} {source : String} {p : Program}
    (hmark : ∀ token ∈ lex source, token.Has M) (h : parse source = .ok p) :
    Stmt.MarkedAll M p := by
  obtain ⟨⟨q, t⟩, hq, h⟩ := bind_eq_ok.mp h
  cases h
  exact ((Grammar.Anchored.program _).reads (start_marked hmark) hq).2

theorem refused_of_parse {M : Mark} {source : String} {f : Fault}
    (hmark : ∀ token ∈ lex source, token.Has M) (h : parse source = .error (.fault f)) :
    Grammar.Refusal M f := by
  cases hq : Grammar.program (Grammar.fuelFor (lex source)) (.start (lex source)) with
  | ok result =>
    simp only [parse, hq] at h
    cases h
  | error e =>
    simp only [parse, hq] at h
    cases h
    exact (Grammar.Anchored.program _).fails (start_marked hmark) hq

theorem lined_of_lex (source : String) :
    ∀ token ∈ lex source, token.Has (.lines (Text.HasLine source)) :=
  fun _ h => ⟨hasLine_of_mem_lex h, trivial⟩

theorem lined_of_parse {source : String} {p : Program} (h : parse source = .ok p) :
    Stmt.MarkedAll (.lines (Text.HasLine source)) p :=
  marked_of_parse (lined_of_lex source) h

-- A text that is no program is refused at one of its lines.
theorem refusal_of_parse {source : String} {f : Fault} (h : parse source = .error (.fault f)) :
    Grammar.Refusal (.lines (Text.HasLine source)) f :=
  refused_of_parse (lined_of_lex source) h

-- A computation whose failures all have a line.
def Exec.Anchored {α : Type} (x : Exec α) : Prop :=
  ∀ w f t, x w = .error (.fault f) t → f.line.isSome = true

namespace Exec.Anchored

variable {α β : Type} {x : Exec α}

theorem pure (a : α) : Anchored (pure a) := by
  rintro w f t ⟨⟩

theorem modify (g : World → World) : Anchored (modify g : Exec Unit) := by
  rintro w f t ⟨⟩

theorem get : Anchored (get : Exec World) := by
  rintro w f t ⟨⟩

theorem isTrue (v : Value) : Anchored (isTrue v) := by
  rintro w f t ⟨⟩

theorem onHeap (g : Heap → α × Heap) : Anchored (onHeap g) := by
  rintro w f t ⟨⟩

theorem outOfFuel : Anchored (outOfFuel : Exec α) := by
  rintro w f t ⟨⟩

theorem faultAt (cause : RuntimeFault) (line : Nat) : Anchored (faultAt cause line : Exec α) := by
  rintro w f t ⟨⟩
  rfl

theorem place (d : Draft) : Anchored (place d) := by
  cases d with
  | value v => exact pure v
  | list items => exact onHeap fun h => h.place (.list items)
  | dict entries => exact onHeap fun h => h.place (.dict entries)

theorem bind {g : α → Exec β} (hx : Anchored x) (hg : ∀ a, Anchored (g a)) :
    Anchored (x >>= g) := by
  intro w f t h
  rw [bind_apply] at h
  cases hcase : x w with
  | ok a u =>
    rw [hcase] at h
    exact hg a u f t h
  | error e u =>
    rw [hcase] at h
    cases h
    exact hx w f t hcase

theorem ite {c : Prop} [Decidable c] {y : Exec α} (hx : Anchored x) (hy : Anchored y) :
    Anchored (if c then x else y) := by
  split
  · exact hx
  · exact hy

theorem atLine (line : Nat) (x : Exec α) : Anchored (atLine line x) := by
  intro w f t h
  unfold Exec.atLine at h
  split at h
  · cases h
    rfl
  · next hno => exact absurd h (hno f t)

theorem withFrame {env : Nat} {body : Nat → Exec α} (h : ∀ scope, Anchored (body scope)) :
    Anchored (withFrame env body) := by
  intro w f t hf
  simp only [Exec.withFrame] at hf
  split at hf
  · cases hf
  · next hbody =>
    cases hf
    exact h _ _ _ _ hbody

end Exec.Anchored

namespace Eval

open Exec (Anchored)

-- Expressions place all their failures, and statements those that are left.
variable {ev : Evaluators} (hexpr : ∀ env e, Anchored (ev.expr env e))
  (hstmt : ∀ env s, Anchored (ev.stmt env s))

include hstmt in
theorem block_anchored (env : Nat) (body : List Stmt) : Anchored (block ev env body) := by
  induction body with
  | nil => exact .pure _
  | cons s rest ih =>
    apply (hstmt env s).bind
    intro signal
    cases signal with
    | normal => exact ih
    | ret v | brk | cont => exact .pure _

include hstmt in
theorem inFrame_anchored (env : Nat) (body : List Stmt) : Anchored (inFrame ev env body) :=
  .withFrame fun scope => block_anchored hstmt scope body

include hexpr hstmt in
theorem loop_anchored (env : Nat) (condition : Expr) (body : List Stmt) (bound : Nat) :
    Anchored (loop ev env condition body bound) := by
  induction bound with
  | zero => exact .outOfFuel
  | succ bound ih =>
    apply (hexpr env condition).bind
    intro v
    apply (Anchored.isTrue v).bind
    intro _
    apply Anchored.ite
    · apply (inFrame_anchored hstmt env body).bind
      intro signal
      cases signal with
      | normal | cont => exact ih
      | ret v | brk => exact .pure _
    · exact .pure _

include hstmt in
theorem eachItem_anchored (env : Nat) (iterator : String) (body : List Stmt)
    (items : List Value) : Anchored (eachItem ev env iterator body items) := by
  induction items with
  | nil => exact .pure _
  | cons item rest ih =>
    have hitem : Anchored (Exec.withFrame env fun scope => do
        Exec.define scope iterator item
        block ev scope body) :=
      .withFrame fun scope => (Anchored.modify _).bind fun _ => block_anchored hstmt scope body
    apply hitem.bind
    intro signal
    cases signal with
    | normal | cont => exact ih
    | ret v | brk => exact .pure _

include hexpr hstmt in
theorem stmt_anchored (bound env : Nat) (s : Stmt) : Anchored (stmt ev bound env s) := by
  cases s with
  | expression e => exact (hexpr env e).bind fun _ => .pure _
  | declaration d =>
    obtain ⟨name, ty, init⟩ := d
    cases init with
    | some e => exact (hexpr env e).bind fun _ => (Anchored.modify _).bind fun _ => .pure _
    | none => exact (Anchored.place _).bind fun _ => (Anchored.modify _).bind fun _ => .pure _
  | function => exact (Anchored.modify _).bind fun _ => .pure _
  | ret value line =>
    cases value with
    | some e => exact (hexpr env e).bind fun _ => .pure _
    | none => exact .pure _
  | branch condition yes no =>
    apply (hexpr env condition).bind
    intro v
    apply (Anchored.isTrue v).bind
    intro _
    apply Anchored.ite
    · exact inFrame_anchored hstmt env yes
    · cases no with
      | some no => exact inFrame_anchored hstmt env no
      | none => exact .pure _
  | loop condition body => exact loop_anchored hexpr hstmt env condition body bound
  | each iterator iterable body =>
    apply (hexpr env iterable).bind
    intro source
    apply (Anchored.atLine _ _).bind
    intro items
    exact eachItem_anchored hstmt env _ body items
  | brk | cont => exact .pure _
  | par body line => exact (Anchored.atLine line _).bind fun _ => .pure _
  | seq body => exact inFrame_anchored hstmt env body
  | client name host port line =>
    apply (Anchored.atLine line _).bind
    intro e
    apply (Anchored.onHeap _).bind
    intro v
    exact (Anchored.modify _).bind fun _ => .pure _
  | server name handler description host port line =>
    apply Anchored.get.bind
    intro w
    cases w.functions.get? handler.lexeme with
    | none => exact .faultAt _ line
    | some f =>
      apply (hexpr env description).bind
      intro d
      apply (Anchored.atLine line _).bind
      intro d
      apply (Anchored.atLine line _).bind
      intro e
      apply (Anchored.onHeap _).bind
      intro v
      exact (Anchored.modify _).bind fun _ => .pure _

end Eval

open Exec (Anchored) in
theorem evaluators_anchored (fuel : Nat) :
    (∀ env e, Anchored ((evaluators fuel).expr env e)) ∧
      ∀ env s, Anchored ((evaluators fuel).stmt env s) := by
  induction fuel with
  | zero =>
    rw [evaluators_zero]
    exact ⟨fun _ _ => .outOfFuel, fun _ _ => .outOfFuel⟩
  | succ fuel ih =>
    rw [evaluators_succ]
    exact ⟨fun _ e => .atLine e.line _, fun env s => Eval.stmt_anchored ih.1 ih.2 fuel env s⟩

-- Only leaving what it is not in stops a program without a line.
theorem line_of_runWith {ev : Evaluators} (hstmt : ∀ env s, Exec.Anchored (ev.stmt env s))
    {p : Program} {w t : World} {f : Fault} (h : runWith ev p w = .error (.fault f) t) :
    f.line.isSome = true ∨ ∃ cause, f = .runtime cause ∧ cause.isEscape = true := by
  induction p generalizing w with
  | nil => cases h
  | cons s rest ih =>
    rw [runWith, Exec.bind_apply] at h
    cases hcase : ev.stmt globals s w with
    | error e u =>
      rw [hcase] at h
      cases h
      exact .inl (hstmt globals s w f t hcase)
    | ok signal u =>
      rw [hcase] at h
      cases signal with
      | normal => exact ih h
      | ret v | brk | cont =>
        cases h
        exact .inr ⟨_, rfl, rfl⟩

-- Programs all of whose lines have a property fail at such lines. The globals have no caller,
-- so that nothing called from there is too deep.
def numbered (P : Nat → Prop) : Discipline Unit where
  expr _ _ e := e.Marked (.lines P)
  stmt _ _ s _ := s.Marked (.lines P)
  call _ _ := True
  inside _ c := c
  project c _ := c
  holds _ _ _ w := globals < w.frames.size ∧ w.frames.depth globals = 0
  func f _ := f.definition.Marked (.lines P)
  signal _ _ := True
  ends _ := True
  allowed s := ∀ f, s = .fault f → f.cause.stage = .runtime ∧ ∀ line ∈ f.line, P line
  line := P

namespace numbered

variable {P : Nat → Prop} {n : Nat} {k : Option Activation} {env : Nat} {w t : World}

theorem block {body : List Stmt} (h : ∀ s ∈ body, s.Marked (.lines P)) :
    (numbered P).Block n () body :=
  .of_forall h

theorem allowed_runtime (cause : RuntimeFault) :
    (numbered P).allowed (.fault (.runtime cause)) := by
  rintro f ⟨⟩
  exact ⟨rfl, by simp [Fault.runtime]⟩

theorem allowed_outOfFuel : (numbered P).allowed .outOfFuel := by
  rintro f ⟨⟩

theorem moves {new : String → Prop} {i : Nat}
    (h : globals < w.frames.size ∧ w.frames.depth globals = 0) (hm : w.Moves i new t) :
    globals < t.frames.size ∧ t.frames.depth globals = 0 := by
  rw [hm.frames.size, hm.frames.depth]
  exact h

theorem opened (h : globals < w.frames.size ∧ w.frames.depth globals = 0) :
    globals < (w.opened env).frames.size ∧ (w.opened env).frames.depth globals = 0 := by
  rw [World.opened, Frames.size_child, Frames.depth_child_of_lt _ _ h.1]
  exact ⟨Nat.lt_succ_of_lt h.1, h.2⟩

theorem opened_defined (h : globals < w.frames.size ∧ w.frames.depth globals = 0)
    (name : String) (v : Value) :
    globals < ((w.opened env).defined w.frames.size name v).frames.size ∧
      ((w.opened env).defined w.frames.size name v).frames.depth globals = 0 :=
  moves (opened h) ((w.opened env).moves_defined _ name v)

theorem enters {f : Function} (hf : f.definition.Marked (.lines P) ∨ f = idle)
    (h : globals < w.frames.size ∧ w.frames.depth globals = 0) :
    (numbered P).Enters n f env w () () where
  start := opened h
  default p hp e he := by
    rcases hf with hf | rfl
    · rw [Function.definition, Stmt.Marked] at hf
      exact (hf.2.2.1 p hp).2 e he
    · cases hp
  param p _ t v ht := moves ht (t.moves_defined _ p.name v)
  bound _ _ ht _ := ht
  body := by
    cases n with
    | zero => exact allowed_outOfFuel
    | succ n =>
      rcases hf with hf | rfl
      · exact block fun s hs => hf.of_mem_bodies List.mem_cons_self hs
      · exact .nil ()
  ends _ _ := trivial

theorem lines : (numbered P).Lines where
  expr h := h.token.line
  target {n c eq target value} h := by
    have hassign : (Expr.assign eq target value).Marked (.lines P) := h
    rw [Expr.Marked] at hassign
    exact hassign.2.1.token.line
  stmt h := h.of_mem_lines
  func {k c env f w} h hf hdeep := by
    rcases hf with hf | ⟨-, rfl⟩
    · have hdefinition : f.definition.Marked (.lines P) := hf
      rw [Function.definition, Stmt.Marked] at hdefinition
      exact hdefinition.1
    · rw [h.2] at hdeep
      exact absurd hdeep (by decide)

theorem lawful : (numbered P).Lawful where
  operand h x hx := h.of_mem_operands hx
  projection {n c bracket iterator ty initial iterable projection} h := by
    have hnode : (Expr.comprehension bracket iterator ty initial iterable projection).Marked
        (.lines P) := h
    rw [Expr.Marked] at hnode
    exact hnode.2.2.2.2
  value h x hx := h.of_mem_operands hx
  block h body hbody :=
    block fun _ ht => h.of_mem_bodies (Stmt.mem_bodies_of_mem_blocks hbody) ht
  stable h hm := moves h hm
  opens _ _ _ h := opened h
  iterates v _ h := opened_defined h _ v
  projects v _ h := opened_defined h _ v
  follows _ _ _ _ h := h
  declares {_ _ _ _ _ env w x} v _ _ h := moves h (w.moves_defined env x v)
  defines {_ _ _ _ _ _ _ _ _ env w} hs h := ⟨hs, moves h (w.moves_learned env _)⟩
  enters _ h hf _ := ⟨(), (), enters hf h⟩
  serves _ _ h := ⟨(), fun _ => h, trivial⟩
  waits _ := allowed_outOfFuel
  crashes _ _ := by rintro f ⟨⟩
  ordinary {s} h := by
    rintro f rfl
    obtain ⟨cause, rfl, -⟩ := h
    exact allowed_runtime cause _ rfl
  lines := lines
  placed {f} h line hline := by
    rintro _ ⟨⟩
    obtain ⟨hstage, hlines⟩ := h f rfl
    refine ⟨hstage, ?_⟩
    rintro _ ⟨⟩
    cases hf : f.line with
    | none => exact hline
    | some own => exact hlines own hf
  fails _ := allowed_runtime _

theorem ensures : (numbered P).Ensures (.avoiding fun _ => false) :=
  Discipline.ensures_avoiding fun _ _ _ _ _ _ => rfl

-- What a program stops for among the globals of a fresh world.
theorem allowed_of_run {p : Program} (hp : Stmt.MarkedAll (.lines P) p) (fuel : Nat)
    {console : Console} {options : Options} {s : Stop}
    (h : runStatements fuel p (World.fresh console options) = .error s t) :
    (numbered P).allowed s := by
  have hholds : (numbered P).holds none () globals (World.fresh console options) :=
    ⟨Nat.zero_lt_one, rfl⟩
  have hinv : (numbered P).Inv (World.fresh console options) :=
    (numbered P).inv_fresh console options
  have hruns := (Discipline.watched_agrees lawful ensures fuel).run lawful
    (block (n := fuel) (Stmt.markedAll_iff.mp hp))
    (fun _ cause _ _ => allowed_runtime cause) hholds hinv
  have hmeets := hruns.meets
  rw [← runStatements, h] at hmeets
  exact hmeets.2.2

end numbered

-- A program that stops for a failure of its own does so at one of the lines of its text.
theorem fault_of_run {source : String} {p : Program} (hp : compile source = .ok p) (fuel : Nat)
    {console : Console} {options : Options} {f : Fault} {w : World}
    (h : runStatements fuel p (World.fresh console options) = .error (.fault f) w) :
    f.cause.stage = .runtime ∧ f.IsAt (Text.HasLine source) := by
  have hlined := lined_of_parse (compile_eq_ok.mp hp).1
  obtain ⟨hstage, hlines⟩ := numbered.allowed_of_run hlined fuel h f rfl
  refine ⟨hstage, ?_⟩
  have hfresh := placement.inv_iff.mp (placement.inv_fresh console options)
  have hescape := (placement.runs fuel hp (List.append_nil p).symm hfresh).meets.fails_eq_false
    fun _ h => h
  rcases line_of_runWith (evaluators_anchored fuel).2 h with hline | ⟨cause, rfl, hcause⟩
  · obtain ⟨line, hline⟩ := Option.isSome_iff_exists.mp hline
    exact ⟨line, hline, hlines line hline⟩
  · rw [h] at hescape
    exact absurd (hcause.symm.trans hescape) (by decide)

-- A failure of a check, after which the program does not run.
theorem compile_eq_fault {source : String} {f : Fault}
    (h : compile source = .error (.fault f)) :
    parse source = .error (.fault f) ∨ ∃ p, parse source = .ok p ∧ Typing.program p = .error f := by
  cases hparse : parse source with
  | error e =>
    simp only [compile, hparse] at h
    cases h
    exact .inl rfl
  | ok p =>
    refine .inr ⟨p, rfl, ?_⟩
    cases htyping : Typing.program p with
    | ok u =>
      simp only [compile, hparse, bind, Except.bind, htyping] at h
      cases h
    | error g =>
      simp only [compile, hparse, bind, Except.bind, htyping] at h
      cases h
      rfl

theorem execute_eq_fault {fuel : Nat} {source : String} {f : Fault} {w t : World}
    (h : execute fuel source w = .error (.fault f) t) (hcrash : f ≠ .runtime .runCrashed) :
    compile source = .error (.fault f) ∧ t = w ∨
      ∃ p, compile source = .ok p ∧ runStatements fuel p w = .error (.fault f) t := by
  simp only [execute, guarded] at h
  split at h
  · cases h
    exact absurd rfl hcrash
  · rw [Exec.bind_apply, Exec.require, Exec.reading] at h
    cases hcompile : compile source with
    | error e =>
      rw [hcompile] at h
      cases h
      exact .inl ⟨rfl, rfl⟩
    | ok p =>
      rw [hcompile] at h
      exact .inr ⟨p, rfl, h⟩

-- Every failure that is reported has a line of the text, unless the run crashed. It is of the
-- grammar or of the names if the text is no program, of the types if the program is refused, and
-- of the run exactly if the program ran and failed. A text that does not run changes nothing.
theorem reported_failures_are_anchored {fuel : Nat} {source : String} {console : Console}
    {options : Options} {f : Fault} {w : World}
    (h : execute fuel source (World.fresh console options) = .error (.fault f) w)
    (hcrash : f ≠ .runtime .runCrashed) :
    (∃ line, f.line = some line ∧ 1 ≤ line ∧ line ≤ 1 + source.toList.count '\n') ∧
    (∀ s, parse source = .error s →
      (f.cause.stage = .grammar ∨ f.cause.stage = .declaration) ∧
        w = World.fresh console options) ∧
    (∀ p g, parse source = .ok p → Typing.program p = .error g →
      f.cause.stage = .typing ∧ w = World.fresh console options) ∧
    (f.cause.stage = .runtime ↔ ∃ p, compile source = .ok p ∧
      runStatements fuel p (World.fresh console options) = .error (.fault f) w) := by
  rcases execute_eq_fault h hcrash with ⟨hcompile, rfl⟩ | ⟨p, hcompile, hrun⟩
  · have hran : (∃ p, compile source = .ok p ∧
        runStatements fuel p (World.fresh console options) =
          .error (.fault f) (World.fresh console options)) → f.cause.stage = .runtime := by
      rintro ⟨p, hp, -⟩
      rw [hcompile] at hp
      cases hp
    rcases compile_eq_fault hcompile with hparse | ⟨p, hparse, htyping⟩
    · obtain ⟨hstage, hline⟩ := refusal_of_parse hparse
      refine ⟨hline, fun _ _ => ⟨hstage, rfl⟩, fun p g hp => ?_, fun hruntime => ?_, hran⟩
      · rw [hparse] at hp
        cases hp
      · rw [hruntime] at hstage
        rcases hstage with hstage | hstage <;> cases hstage
    · obtain ⟨hstage, hline⟩ := Typing.Anchored.program (lined_of_parse hparse) f htyping
      refine ⟨hline, fun s hs => ?_, fun _ _ _ _ => ⟨hstage, rfl⟩, fun hruntime => ?_, hran⟩
      · rw [hparse] at hs
        cases hs
      · rw [hruntime] at hstage
        cases hstage
  · obtain ⟨hstage, hline⟩ := fault_of_run hcompile fuel hrun
    obtain ⟨hparse, htyping⟩ := compile_eq_ok.mp hcompile
    refine ⟨hline, fun s hs => ?_, fun q g hq hg => ?_, fun _ => ⟨p, hcompile, hrun⟩,
      fun _ => hstage⟩
    · rw [hparse] at hs
      cases hs
    · rw [hparse] at hq
      cases hq
      rw [htyping] at hg
      cases hg

-- A program that fails inside a call, on a line before the one of the call.
def dividing : String :=
  "func f(n: number) -> number \x7b
  return 10 / n \x7d
  print(f(5))
  print(f(0))"

set_option maxRecDepth 10000 in
theorem dividing_is_anchored :
    ∃ w p, execute 40 dividing (World.fresh (.captured "") ⟨true, .loopback⟩) =
        .error (.fault (.runtimeAt .divisionByZero 2)) w ∧
      Fault.runtimeAt .divisionByZero 2 ≠ .runtime .runCrashed ∧
      2 ≤ 1 + dividing.toList.count '\n' ∧
      compile dividing = .ok p ∧
      runStatements 40 p (World.fresh (.captured "") ⟨true, .loopback⟩) =
        .error (.fault (.runtimeAt .divisionByZero 2)) w := by
  obtain ⟨w, hw⟩ := Outcome.eq_error_of_fault?
    (r := execute 40 dividing (World.fresh (.captured "") ⟨true, .loopback⟩))
    (f := .runtimeAt .divisionByZero 2) (by decide +kernel)
  have hcrash : Fault.runtimeAt .divisionByZero 2 ≠ .runtime .runCrashed := by decide
  obtain ⟨⟨line, hline, -, hle⟩, -, -, hran⟩ := reported_failures_are_anchored hw hcrash
  obtain ⟨p, hp, hrun⟩ := hran.mp rfl
  cases hline
  exact ⟨w, p, hw, hcrash, hle, hp, hrun⟩

end Parlance
