import Parlance.Diagnostic
import Parlance.Grammar.Stmt
import Parlance.Proofs.Marked
import Parlance.Proofs.Ordinary
import Parlance.Proofs.Quoted

namespace Parlance

-- A failure that is reported at a line with a property.
def Fault.IsAt (P : Nat → Prop) (f : Fault) : Prop :=
  ∃ line, f.line = some line ∧ P line

namespace Grammar

-- A text that is not a program is refused for its grammar or for its names.
structure Refusal (M : Mark) (f : Fault) : Prop where
  stage : f.cause.stage = .grammar ∨ f.cause.stage = .declaration
  line : f.IsAt M.line
  quotes : ∀ s ∈ f.cause.quoted, M.text s

-- A failure about a name is placed at the name and quotes it.
theorem Refusal.of_name {M : Mark} {cause : DeclarationFault} {name : Token} (h : name.Has M)
    (hquotes : cause.quoted = [name.lexeme]) : Refusal M (.declaration cause name.line) where
  stage := .inr rfl
  line := ⟨name.line, rfl, h.line⟩
  quotes := by
    change ∀ s ∈ cause.quoted, M.text s
    rw [hquotes]
    exact h.quoted

-- Everything that is left to read has what the tokens have in common.
structure State.Marked (M : Mark) (s : State) : Prop where
  current : s.current.Has M
  rest : ∀ token ∈ s.rest, token.Has M

-- A reader that takes all lines and texts from its tokens, those of what it gives as well as
-- those of its failures.
structure Anchored (M : Mark) {α : Type} (x : Parse α) (Q : α → Prop) : Prop where
  reads : ∀ {s a t}, s.Marked M → x s = .ok (a, t) → t.Marked M ∧ Q a
  fails : ∀ {s f}, s.Marked M → x s = .error (.fault f) → Refusal M f

namespace Anchored

variable {M : Mark} {α β : Type} {x : Parse α} {Q R : α → Prop} {S : β → Prop}

theorem imp (h : Anchored M x Q) (hQ : ∀ a, Q a → R a) : Anchored M x R where
  reads hs hx := by
    obtain ⟨ht, hq⟩ := h.reads hs hx
    exact ⟨ht, hQ _ hq⟩
  fails := h.fails

theorem pure {a : α} (h : Q a) : Anchored M (pure a) Q where
  reads hs hx := by
    cases hx
    exact ⟨hs, h⟩
  fails _ hx := by cases hx

theorem outOfFuel : Anchored M (outOfFuel : Parse α) Q where
  reads _ hx := by cases hx
  fails _ hx := by cases hx

theorem fail {fault : Fault} (h : Refusal M fault) : Anchored M (fail fault : Parse α) Q where
  reads _ hx := by cases hx
  fails _ hx := by
    cases hx
    exact h

theorem grammar {cause : GrammarFault} {line : Nat} (h : M.line line)
    (hquotes : ∀ s ∈ cause.quoted, M.text s) :
    Anchored M (Grammar.fail (.grammar cause line) : Parse α) Q :=
  fail ⟨.inl rfl, ⟨line, rfl, h⟩, hquotes⟩

theorem bind {g : α → Parse β} (h : Anchored M x Q) (hg : ∀ a, Q a → Anchored M (g a) S) :
    Anchored M (x >>= g) S where
  reads {s b u} hs hx := by
    obtain ⟨⟨a, t⟩, hxs, hb⟩ := bind_eq_ok.mp hx
    obtain ⟨ht, hq⟩ := h.reads hs hxs
    exact (hg a hq).reads ht hb
  fails {s f} hs hx := by
    change (x s >>= fun at' => g at'.1 at'.2) = _ at hx
    cases hxs : x s with
    | error e =>
      rw [hxs] at hx
      cases hx
      exact h.fails hs hxs
    | ok at' =>
      rw [hxs] at hx
      obtain ⟨ht, hq⟩ := h.reads hs hxs
      exact (hg at'.1 hq).fails ht hx

theorem map {g : α → β} (h : Anchored M x fun a => S (g a)) : Anchored M (g <$> x) S :=
  h.bind fun _ ha => pure ha

theorem ite {c : Prop} [Decidable c] {y : Parse α} (hx : Anchored M x Q)
    (hy : Anchored M y Q) : Anchored M (if c then x else y) Q := by
  split
  · exact hx
  · exact hy

theorem peek : Anchored M peek fun token => token.Has M where
  reads hs hx := by
    cases hx
    exact ⟨hs, hs.current⟩
  fails _ hx := by cases hx

theorem check (kind : TokenKind) : Anchored M (check kind) fun _ => True where
  reads hs hx := by
    cases hx
    exact ⟨hs, trivial⟩
  fails _ hx := by cases hx

-- After the last token the end of the text is at the line of that token.
theorem advance : Anchored M advance fun token => token.Has M where
  reads {s a t} hs hx := by
    unfold Grammar.advance at hx
    split at hx
    · cases hx
      have heof : M.text "EOF" := M.words (by decide)
      exact ⟨⟨⟨hs.current.line, heof⟩, hs.rest⟩, hs.current⟩
    · next token rest hrest =>
      cases hx
      have hlines := hs.rest
      rw [hrest] at hlines
      exact ⟨⟨hlines token (by simp), fun t ht => hlines t (by simp [ht])⟩, hs.current⟩
  fails {s f} _ hx := by
    unfold Grammar.advance at hx
    split at hx <;> cases hx

theorem accept (kind : TokenKind) : Anchored M (accept kind) fun _ => True := by
  apply (check kind).bind
  intro found _
  apply ite
  · exact advance.bind fun _ _ => pure trivial
  · exact pure trivial

theorem unexpected (wanted : String) (h : Unbroken wanted) :
    Anchored M (unexpected wanted : Parse α) Q := by
  apply peek.bind
  intro token htoken
  exact grammar htoken.line (List.forall_mem_cons.mpr ⟨M.words h, htoken.quoted⟩)

theorem expect (kind : TokenKind) (wanted : String) (h : Unbroken wanted) :
    Anchored M (expect kind wanted) fun token => token.Has M := by
  apply (check kind).bind
  intro found _
  exact ite advance (unexpected wanted h)

theorem expectType : Anchored M expectType fun _ => True := by
  apply (expect .typeName "a type" (by decide)).bind
  intro token _
  cases Ty.ofKeyword? token.lexeme with
  | some ty => exact pure trivial
  | none => exact unexpected "a type" (by decide)

theorem nested {depth : Nat} {body : Nat → Parse α} (h : Anchored M (body (depth + 1)) Q) :
    Anchored M (nested depth body) Q :=
  ite (peek.bind fun _ htoken => grammar htoken.line (by simp [GrammarFault.quoted])) h

theorem declare {name : Token} (h : name.Has M) (ty : Ty) :
    Anchored M (declare name ty) fun _ => True where
  reads {s a t} hs hx := by
    unfold Grammar.declare at hx
    split at hx <;> cases hx
    exact ⟨⟨hs.current, hs.rest⟩, trivial⟩
  fails {s f} _ hx := by
    unfold Grammar.declare at hx
    split at hx <;> cases hx
    exact .of_name h rfl

theorem resolve {name : Token} (h : name.Has M) :
    Anchored M (resolve name) fun _ => True where
  reads {s a t} hs hx := by
    unfold Grammar.resolve at hx
    split at hx <;> cases hx
    exact ⟨hs, trivial⟩
  fails {s f} _ hx := by
    unfold Grammar.resolve at hx
    split at hx <;> cases hx
    exact .of_name h rfl

-- The scope of a state does not matter.
theorem rescope (g : Scope → Scope) :
    Anchored M (modify fun s => { s with scope := g s.scope } : Parse Unit) fun _ => True where
  reads hs hx := by
    cases hx
    exact ⟨⟨hs.current, hs.rest⟩, trivial⟩
  fails _ hx := by cases hx

theorem inBlock {seed : Layer} (h : Anchored M x Q) : Anchored M (inBlock seed x) Q := by
  apply (rescope fun scope => scope.push.insertAll seed).bind
  intro _ _
  apply h.bind
  intro a ha
  exact (rescope Scope.pop).bind fun _ _ => pure ha

theorem items {starts : TokenKind → Bool} (h : Anchored M x Q) (fuel : Nat) :
    Anchored M (items starts x fuel) fun as => ∀ a ∈ as, Q a := by
  induction fuel with
  | zero => exact outOfFuel
  | succ fuel ih =>
    apply peek.bind
    intro token _
    apply ite
    · apply h.bind
      intro a ha
      apply (accept .comma).bind
      intro more _
      apply ite
      · exact ih.bind fun as has => pure (List.forall_mem_cons.mpr ⟨ha, has⟩)
      · exact pure (by simpa using ha)
    · exact pure (by simp)

theorem map_some (h : Anchored M x Q) : Anchored M (some <$> x) fun o => ∀ a ∈ o, Q a := by
  apply map
  apply h.imp
  intro a ha b hb
  cases hb
  exact ha

-- A reader that is used only under a condition, with what is read after it.
theorem optional {c : Prop} [Decidable c] {g : Option α → Parse β} (h : Anchored M x Q)
    (hg : ∀ o, (∀ a ∈ o, Q a) → Anchored M (g o) S) :
    Anchored M (if c then some <$> x >>= g else Pure.pure none >>= g) S := by
  apply ite
  · exact (map_some h).bind hg
  · exact hg none (by simp)

theorem optionalUnless {c : Prop} [Decidable c] {g : Option α → Parse β} (h : Anchored M x Q)
    (hg : ∀ o, (∀ a ∈ o, Q a) → Anchored M (g o) S) :
    Anchored M (if c then Pure.pure none >>= g else some <$> x >>= g) S := by
  apply ite
  · exact hg none (by simp)
  · exact (map_some h).bind hg

-- Every operator of a level gives a node at its own line.
theorem chain {level : Level} (hlevel : level ∈ Level.all) {operand : Parse Expr}
    (h : Anchored M operand (Expr.Marked M)) (fuel : Nat) {left : Expr} (hleft : left.Marked M) :
    Anchored M (level.chain operand fuel left) (Expr.Marked M) := by
  have hnode : ∀ (op : Token) (l r : Expr), op.Has M → l.Marked M → r.Marked M →
      (level.node op l r).Marked M := by
    intro op l r hop hl hr
    simp only [Level.all, Level.sums, List.cons_append, List.nil_append, List.mem_cons,
      List.not_mem_nil, or_false] at hlevel
    rcases hlevel with rfl | rfl | rfl | rfl | rfl | rfl
    all_goals exact ⟨hop, hl, hr⟩
  induction fuel generalizing left with
  | zero => exact outOfFuel
  | succ fuel ih =>
    apply peek.bind
    intro token _
    apply ite
    · apply advance.bind
      intro operator hoperator
      apply h.bind
      intro right hright
      exact ih (hnode operator left right hoperator hleft hright)
    · exact pure hleft

theorem levels {tightest : Parse Expr} (h : Anchored M tightest (Expr.Marked M)) (fuel : Nat)
    {levels : List Level} (hlevels : ∀ level ∈ levels, level ∈ Level.all) :
    Anchored M (Level.parse tightest fuel levels) (Expr.Marked M) := by
  induction levels with
  | nil => exact h
  | cons level tighter ih =>
    obtain ⟨hlevel, htighter⟩ := List.forall_mem_cons.mp hlevels
    have htight := ih htighter
    exact htight.bind fun left hleft => chain hlevel htight fuel hleft

end Anchored

-- Readers of expressions that take their lines and texts from the tokens.
structure Readers.Anchored (M : Mark) (r : Readers) : Prop where
  full : Grammar.Anchored M r.full (Expr.Marked M)
  plain : Grammar.Anchored M r.plain (Expr.Marked M)
  sum : Grammar.Anchored M r.sum (Expr.Marked M)

namespace Anchored

variable {M : Mark} {r : Readers}

theorem declaration {plain : Parse Expr} (h : Anchored M plain (Expr.Marked M)) :
    Anchored M (declaration plain) (Declaration.Marked M) := by
  apply (accept .kwVar).bind
  intro _ _
  apply (expect .id "a name" (by decide)).bind
  intro name hname
  apply (expect .colon "`:`" (by decide)).bind
  intro _ _
  apply expectType.bind
  intro ty _
  apply (accept .equal).bind
  intro given _
  apply optional h
  intro init hinit
  exact pure ⟨hname, hinit⟩

theorem registered {plain : Parse Expr} (h : Anchored M plain (Expr.Marked M)) :
    Anchored M (registered plain) (Declaration.Marked M) := by
  apply (declaration h).bind
  intro d hd
  apply (declare hd.1 d.ty).bind
  intro _ _
  exact pure hd

theorem arguments (h : r.Anchored M) (fuel : Nat) :
    Anchored M (arguments r fuel) (Expr.MarkedAll M) := by
  apply (items h.full fuel).bind
  intro args hargs
  apply (expect .rightParen "`)`" (by decide)).bind
  intro _ _
  exact pure (Expr.markedAll_iff.mpr hargs)

theorem bracketed (h : r.Anchored M) {target : Expr} (htarget : target.Marked M) :
    Anchored M (bracketed r target) (Expr.Marked M) := by
  apply advance.bind
  intro _ _
  apply (check .colon).bind
  intro _ _
  apply optionalUnless h.sum
  intro start hstart
  apply (accept .colon).bind
  intro _ _
  apply ite
  · apply (check .rightBracket).bind
    intro _ _
    apply optionalUnless h.sum
    intro stop hstop
    apply (expect .rightBracket "`]`" (by decide)).bind
    intro _ _
    refine pure ⟨htarget, ?_, ?_⟩
    · exact Expr.markedOption_iff.mpr hstart
    · exact Expr.markedOption_iff.mpr hstop
  · apply (expect .rightBracket "`]`" (by decide)).bind
    intro _ _
    cases start with
    | some index => exact pure ⟨htarget, hstart index rfl⟩
    | none => exact unexpected "an index" (by decide)

theorem suffixes (h : r.Anchored M) (fuel : Nat) {e : Expr} (he : e.Marked M) :
    Anchored M (suffixes r fuel e) (Expr.Marked M) := by
  induction fuel generalizing e with
  | zero => exact outOfFuel
  | succ fuel ih =>
    apply peek.bind
    intro token htoken
    split
    · exact (bracketed h he).bind fun e he => ih he
    · apply advance.bind
      intro _ _
      apply (expect .id "an operation name" (by decide)).bind
      intro operation hoperation
      apply (expect .leftParen "`(`" (by decide)).bind
      intro _ _
      apply (arguments h fuel).bind
      intro args hargs
      exact ih ⟨he, hoperation, hargs⟩
    · split
      · next callee ty =>
        apply advance.bind
        intro _ _
        apply (arguments h fuel).bind
        intro args hargs
        exact ih ⟨he, hargs⟩
      · exact grammar htoken.line he.token.quoted
    · exact pure he

theorem entry (h : r.Anchored M) :
    Anchored M (entry r) fun pair => M.text pair.1 ∧ pair.2.Marked M := by
  apply (expect .string "a string key" (by decide)).bind
  intro key hkey
  apply (expect .colon "`:`" (by decide)).bind
  intro _ _
  exact h.full.bind fun value hvalue => pure ⟨hkey.text, hvalue⟩

theorem comprehension (h : r.Anchored M) {bracket : Token} (hbracket : bracket.Has M) :
    Anchored M (comprehension r bracket) (Expr.Marked M) := by
  apply advance.bind
  intro _ _
  apply (expect .leftParen "`(`" (by decide)).bind
  intro _ _
  have hinner : Anchored M (Grammar.inBlock [] do
      let iterator ← Grammar.registered r.plain
      let _ ← Grammar.expect .kwIn "`in`"
      let iterable ← r.full
      let _ ← Grammar.expect .rightParen "`)`"
      let _ ← Grammar.expect .arrow "`->`"
      let projection ← r.full
      return .comprehension bracket iterator.name iterator.ty iterator.init iterable projection)
      (Expr.Marked M) := by
    apply inBlock
    apply (registered h.plain).bind
    intro iterator hiterator
    apply (expect .kwIn "`in`" (by decide)).bind
    intro _ _
    apply h.full.bind
    intro iterable hiterable
    apply (expect .rightParen "`)`" (by decide)).bind
    intro _ _
    apply (expect .arrow "`->`" (by decide)).bind
    intro _ _
    apply h.full.bind
    intro projection hprojection
    have hinit := Expr.markedOption_iff.mpr hiterator.2
    exact pure ⟨hbracket, hiterator.1, hinit, hiterable, hprojection⟩
  apply hinner.bind
  intro e he
  apply (expect .rightBracket "`]`" (by decide)).bind
  intro _ _
  exact pure he

theorem primary (h : r.Anchored M) (fuel : Nat) :
    Anchored M (primary r fuel) (Expr.Marked M) := by
  apply peek.bind
  intro token _
  split
  · apply advance.bind
    intro name hname
    apply (resolve hname).bind
    intro ty _
    exact suffixes h fuel hname
  iterate 4 exact map advance
  · apply advance.bind
    intro _ _
    apply h.full.bind
    intro e he
    apply (expect .rightParen "`)`" (by decide)).bind
    intro _ _
    exact pure he
  · apply advance.bind
    intro bracket hbracket
    apply (check .kwFor).bind
    intro _ _
    apply ite
    · exact comprehension h hbracket
    · apply (items h.full fuel).bind
      intro values hvalues
      apply (expect .rightBracket "`]`" (by decide)).bind
      intro _ _
      exact pure ⟨hbracket, Expr.markedAll_iff.mpr hvalues⟩
  · apply advance.bind
    intro brace hbrace
    apply (items (entry h) fuel).bind
    intro entries hentries
    apply (expect .rightBrace "`\x7d`" (by decide)).bind
    intro _ _
    exact pure ⟨hbrace, Expr.markedEntries_iff.mpr hentries⟩
  · exact unexpected "an expression" (by decide)

theorem sums_subset : ∀ level ∈ Level.sums, level ∈ Level.all :=
  fun _ h => List.mem_append_right _ h

-- The readers of expressions call each other with less fuel.
theorem assignment_unary (fuel : Nat) :
    (∀ depth, Anchored M (assignment fuel depth) (Expr.Marked M)) ∧
      ∀ depth, Anchored M (unary fuel depth) (Expr.Marked M) := by
  induction fuel with
  | zero => exact ⟨fun _ => outOfFuel, fun _ => outOfFuel⟩
  | succ fuel ih =>
    obtain ⟨hassignment, hunary⟩ := ih
    constructor
    · intro depth
      apply (levels (hunary depth) fuel fun _ h => h).bind
      intro target htarget
      apply (check .equal).bind
      intro _ _
      apply ite
      · apply advance.bind
        intro equal hequal
        apply ite
        · apply (nested (hassignment (depth + 1))).bind
          intro value hvalue
          exact pure ⟨hequal, htarget, hvalue⟩
        · exact grammar hequal.line htarget.token.quoted
      · exact pure htarget
    · intro depth
      apply nested
      apply peek.bind
      intro token _
      apply ite
      · apply advance.bind
        intro operator hoperator
        apply (hunary (depth + 1)).bind
        intro operand hoperand
        exact pure ⟨hoperator, hoperand⟩
      · exact primary ⟨hassignment _, levels (hunary _) fuel fun _ h => h,
          levels (hunary _) fuel sums_subset⟩ fuel

theorem readers (fuel depth : Nat) : (readers fuel depth).Anchored M where
  full := (assignment_unary fuel).1 depth
  plain := levels ((assignment_unary fuel).2 depth) fuel fun _ h => h
  sum := levels ((assignment_unary fuel).2 depth) fuel sums_subset

-- Readers of blocks that take their lines and texts from the tokens.
abbrev OfBlock (M : Mark) (block : BlockReader) : Prop :=
  ∀ seed, Anchored M (block seed) (Stmt.MarkedAll M)

variable {block : BlockReader}

theorem parenthesized (h : r.Anchored M) : Anchored M (parenthesized r) (Expr.Marked M) := by
  apply (expect .leftParen "`(`" (by decide)).bind
  intro _ _
  apply h.full.bind
  intro e he
  apply (expect .rightParen "`)`" (by decide)).bind
  intro _ _
  exact pure he

theorem branch (h : r.Anchored M) (hblock : OfBlock M block) :
    Anchored M (branch r block) (Stmt.Marked M) := by
  apply advance.bind
  intro _ _
  apply (parenthesized h).bind
  intro condition hcondition
  apply (hblock []).bind
  intro yes hyes
  apply (accept .kwElse).bind
  intro _ _
  apply optional (hblock [])
  intro no hno
  exact pure ⟨hcondition, hyes, Stmt.markedOption_iff.mpr hno⟩

theorem loop (h : r.Anchored M) (hblock : OfBlock M block) :
    Anchored M (loop r block) (Stmt.Marked M) := by
  apply advance.bind
  intro _ _
  apply (parenthesized h).bind
  intro condition hcondition
  apply (hblock []).bind
  intro body hbody
  exact pure ⟨hcondition, hbody⟩

theorem each (h : r.Anchored M) (hblock : OfBlock M block) :
    Anchored M (each r block) (Stmt.Marked M) := by
  apply advance.bind
  intro _ _
  apply (expect .leftParen "`(`" (by decide)).bind
  intro _ _
  apply (declaration h.plain).bind
  intro iterator hiterator
  apply (expect .kwIn "`in`" (by decide)).bind
  intro _ _
  apply h.full.bind
  intro iterable hiterable
  apply (expect .rightParen "`)`" (by decide)).bind
  intro _ _
  apply (hblock _).bind
  intro body hbody
  exact pure ⟨hiterator, hiterable, hbody⟩

theorem params (h : r.Anchored M) (names : List String) (fuel : Nat) :
    Anchored M (params r names fuel) fun ps => ∀ p ∈ ps, p.Marked M := by
  induction fuel generalizing names with
  | zero => exact outOfFuel
  | succ fuel ih =>
    apply (check .id).bind
    intro _ _
    apply ite
    · apply advance.bind
      intro name hname
      apply (expect .colon "`:`" (by decide)).bind
      intro _ _
      apply expectType.bind
      intro ty _
      apply (accept .equal).bind
      intro _ _
      apply optional h.full
      intro default hdefault
      apply ite
      · exact fail (.of_name hname rfl)
      · apply (accept .comma).bind
        intro _ _
        apply ite
        · apply (ih _).bind
          intro ps hps
          exact pure (List.forall_mem_cons.mpr ⟨⟨hname.text, hdefault⟩, hps⟩)
        · exact pure (List.forall_mem_singleton.mpr ⟨hname.text, hdefault⟩)
    · exact pure (by simp)

theorem function (h : r.Anchored M) (hblock : OfBlock M block) (fuel : Nat) :
    Anchored M (function r block fuel) (Stmt.Marked M) := by
  apply advance.bind
  intro keyword hkeyword
  apply (expect .id "a function name" (by decide)).bind
  intro name hname
  apply (declare hname .func).bind
  intro _ _
  apply (expect .leftParen "`(`" (by decide)).bind
  intro _ _
  apply (params h [] fuel).bind
  intro ps hps
  apply (expect .rightParen "`)`" (by decide)).bind
  intro _ _
  apply (expect .arrow "`->`" (by decide)).bind
  intro _ _
  apply expectType.bind
  intro returns _
  apply (hblock _).bind
  intro body hbody
  exact pure ⟨hkeyword.line, hname.text, hps, hbody⟩

theorem ret (h : r.Anchored M) : Anchored M (ret r) (Stmt.Marked M) := by
  apply advance.bind
  intro keyword hkeyword
  apply peek.bind
  intro next _
  split
  · exact pure ⟨hkeyword.line, by simp⟩
  · exact pure ⟨hkeyword.line, by simp⟩
  · exact pure ⟨hkeyword.line, by simp⟩
  · exact (map_some h.plain).bind fun value hvalue => pure ⟨hkeyword.line, hvalue⟩

theorem client (h : r.Anchored M) : Anchored M (client r) (Stmt.Marked M) := by
  apply advance.bind
  intro keyword hkeyword
  apply (expect .id "a channel name" (by decide)).bind
  intro name hname
  apply (declare hname .client).bind
  intro _ _
  apply (expect .leftBrace "`\x7b`" (by decide)).bind
  intro _ _
  apply h.sum.bind
  intro host hhost
  apply (expect .comma "`,`" (by decide)).bind
  intro _ _
  apply h.sum.bind
  intro port hport
  apply (expect .rightBrace "`\x7d`" (by decide)).bind
  intro _ _
  exact pure ⟨hkeyword.line, hhost, hport⟩

theorem server (h : r.Anchored M) : Anchored M (server r) (Stmt.Marked M) := by
  apply advance.bind
  intro keyword hkeyword
  apply (expect .id "a channel name" (by decide)).bind
  intro name hname
  apply (declare hname .server).bind
  intro _ _
  apply (expect .leftBrace "`\x7b`" (by decide)).bind
  intro _ _
  apply (expect .id "a function name" (by decide)).bind
  intro handler hhandler
  apply (resolve hhandler).bind
  intro _ _
  apply (expect .comma "`,`" (by decide)).bind
  intro _ _
  apply h.sum.bind
  intro description hdescription
  apply (expect .comma "`,`" (by decide)).bind
  intro _ _
  apply h.sum.bind
  intro host hhost
  apply (expect .comma "`,`" (by decide)).bind
  intro _ _
  apply h.sum.bind
  intro port hport
  apply (expect .rightBrace "`\x7d`" (by decide)).bind
  intro _ _
  exact pure ⟨hkeyword.line, hhandler, hdescription, hhost, hport⟩

theorem statement (h : r.Anchored M) (hblock : OfBlock M block) (fuel : Nat) :
    Anchored M (statement r block fuel) (Stmt.Marked M) := by
  apply peek.bind
  intro token _
  split
  · exact map (registered h.plain)
  · exact branch h hblock
  · exact loop h hblock
  · exact each h hblock
  · exact advance.bind fun keyword hkeyword => pure hkeyword.line
  · exact advance.bind fun keyword hkeyword => pure hkeyword.line
  · exact function h hblock fuel
  · exact ret h
  · exact advance.bind fun _ _ => map (hblock [])
  · apply advance.bind
    intro keyword hkeyword
    exact (hblock []).bind fun body hbody => pure ⟨hkeyword.line, hbody⟩
  · exact client h
  · exact server h
  · exact map h.full

theorem sequence {one : Parse Stmt} (h : Anchored M one (Stmt.Marked M)) (fuel : Nat) :
    Anchored M (sequence one fuel) (Stmt.MarkedAll M) := by
  induction fuel with
  | zero => exact outOfFuel
  | succ fuel ih =>
    apply peek.bind
    intro token htoken
    apply ite
    · apply (accept .semicolon).bind
      intro _ _
      apply ite
      · exact ih
      · apply h.bind
        intro s hs
        apply (accept .semicolon).bind
        intro _ _
        exact ih.bind fun rest hrest => pure ⟨hs, hrest⟩
    · apply ite
      · exact pure trivial
      · exact grammar htoken.line htoken.quoted

theorem statements (fuel depth : Nat) :
    Anchored M (statements fuel depth) (Stmt.MarkedAll M) := by
  induction fuel generalizing depth with
  | zero => exact outOfFuel
  | succ fuel ih =>
    apply sequence
    apply statement (readers fuel depth)
    intro seed
    apply (expect .leftBrace "`\x7b`" (by decide)).bind
    intro _ _
    apply (inBlock (nested (ih (depth + 1)))).bind
    intro body hbody
    apply (expect .rightBrace "`\x7d`" (by decide)).bind
    intro _ _
    exact pure hbody

theorem program (fuel : Nat) : Anchored M (program fuel) (Stmt.MarkedAll M) := by
  apply (statements fuel 0).bind
  intro body hbody
  apply (check .eof).bind
  intro _ _
  exact ite (pure hbody) (unexpected "end of input" (by decide))

end Anchored

end Grammar

end Parlance
