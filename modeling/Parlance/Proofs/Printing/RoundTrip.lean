import Parlance.Proofs.Accepted
import Parlance.Proofs.Printing.Stmt
import Parlance.Proofs.Printing.Tokens

namespace Parlance

open Grammar

-- Tokens that start with a name, if there are any.
def Named (ts : List Token) : Prop :=
  ∀ t ∈ ts.head?, t.kind = .id

namespace Named

theorem kind {t : Token} {ts : List Token} (h : Named (t :: ts)) : t.kind = .id :=
  h t rfl

theorem of_append {ts us : List Token} (h : Named (ts ++ us)) : Named ts := by
  cases ts with
  | nil =>
    intro t ht
    cases ht
  | cons t ts => exact h

end Named

-- What has been read is read back from what it is printed as. An expression that starts with
-- a name does so also in print.
def printing : Reading where
  expr σ d r ts e := e.Readable σ d r ∧ (Named ts → nextKind (e.tokensAt r) = .id)
  suffixed σ d ts e := e.Readable σ d .primary ∧ e.isSuffixed = true ∧
    (Named ts → nextKind (e.tokensAt .primary) = .id)
  stmt σ d _ s τ := StmtBack σ d s τ
  body σ d _ body τ := BodyBack σ d body τ

namespace printing

variable {σ : Scope} {d : Nat} {r : Rank} {ts : List Token} {e : Expr}

theorem arguments {args : List Expr} (h : printing.Arguments σ d ts args) :
    ∀ e ∈ args, e.Readable σ d .assignment :=
  h.elim fun _ _ _ hargs => hargs.elim fun _ _ _ he => he.1

theorem annotated {name : Token} {ty : Ty} {init : Option Expr}
    (h : Annotated (printing.expr σ d r) ts name ty init) :
    name.kind = .id ∧ Ty.ofKeyword? ty.keyword = some ty ∧ ∀ e ∈ init, e.Readable σ d r := by
  have hinit := h.elim (Q := fun e => e.Readable σ d r) fun _ _ _ he => he.1
  cases h with
  | intro hname _ _ hty _ =>
    refine ⟨hname, ?_, hinit⟩
    rw [← Ty.eq_keyword hty]
    exact hty

theorem parameter {p : Param} (h : Parameter (printing.expr σ d r) ts p) :
    Ty.ofKeyword? p.ty.keyword = some p.ty ∧ ∀ e ∈ p.default, e.Readable σ d r := by
  cases h with
  | intro h => exact (annotated h).2

theorem block {body : List Stmt} (h : printing.Block σ d ts body) :
    ∃ ρ, BodyBack σ (d + 1) body ρ := by
  cases h with
  | intro _ h _ => exact h

-- Parentheses that a tighter rank needs and a looser one does not are no name.
theorem tighter (h : printing.expr σ d r.next ts e) : printing.expr σ d r ts e := by
  refine ⟨h.1.of_next, fun hts => ?_⟩
  have hnext := h.2 hts
  by_cases hr : r = .primary
  · subst hr
    exact hnext
  · by_cases hrank : e.rank = r
    · have hlevel := Rank.level_next hr
      rw [Expr.tokensAt, wrapped, if_pos (by rw [hrank]; omega)] at hnext
      cases hnext
    · rw [Expr.tokensAt_next hr hrank]
      exact hnext

theorem closed : printing.Closed where
  tighter h := tighter h
  assign hd htarget hassignable hequal hvalue := by
    refine ⟨.assign hd htarget.1 hassignable hequal hvalue.1, fun hts => ?_⟩
    rw [Expr.tokensAt_assign]
    exact nextKind_append (htarget.2 hts.of_append) (by decide) _
  binary hleft hoperator hright := by
    refine ⟨.binary hleft.1 hoperator hright.1, fun hts => ?_⟩
    rw [Expr.tokensAt_node hoperator]
    exact nextKind_append (hleft.2 hts.of_append) (by decide) _
  unary hd hoperator h := by
    refine ⟨.unary hd hoperator h.1, fun hts => ?_⟩
    rw [hts.kind] at hoperator
    rcases hoperator with h | h <;> cases h
  constant hd hkind := by
    refine ⟨.constant hd hkind, fun hts => ?_⟩
    rw [hts.kind] at hkind
    cases hkind
  grouped hd h := by
    cases h with
    | intro hleft h _ =>
      refine ⟨.of_grouped hd h.1, fun hts => ?_⟩
      rw [hts.kind] at hleft
      cases hleft
  array hd hbracket h _ := by
    refine ⟨.array hd hbracket (h.elim fun _ _ _ he => he.1), fun hts => ?_⟩
    rw [hts.kind] at hbracket
    cases hbracket
  dict hd hbrace h _ := by
    refine ⟨.dict hd hbrace (h.elim fun _ _ _ hentry => hentry.elim fun _ _ _ he => he.1),
      fun hts => ?_⟩
    rw [hts.kind] at hbrace
    cases hbrace
  comprehension hd hbracket _ _ _ hiterator hτ _ hiterable _ _ hprojection _ := by
    obtain ⟨hname, hty, hinit⟩ := annotated hiterator
    refine ⟨.comprehension hd hbracket hname hty hinit hτ hiterable.1 hprojection.1, fun hts => ?_⟩
    rw [hts.kind] at hbracket
    cases hbracket
  primary h := ⟨h.1, h.2.2⟩
  name hd hkind h := by
    refine ⟨.name hd hkind h, rfl, fun _ => ?_⟩
    rw [Expr.tokensAt_name]
    exact hkind
  call hd hkind h hargs := by
    refine ⟨.call hd hkind h (arguments hargs), rfl, fun _ => ?_⟩
    rw [Expr.tokensAt_call]
    exact hkind
  access hd htarget hindex := by
    refine ⟨.access hd htarget.1 htarget.2.1 (hindex.elim fun _ _ _ he => he.1), rfl, fun hts => ?_⟩
    rw [Expr.tokensAt_access]
    exact nextKind_append (htarget.2.2 hts.of_append) (by decide) _
  slice hd htarget _ hstart _ hstop _ := by
    refine ⟨.slice hd htarget.1 htarget.2.1 (hstart.elim fun _ _ _ he => he.1)
      (hstop.elim fun _ _ _ he => he.1), rfl, fun hts => ?_⟩
    rw [Expr.tokensAt_slice]
    exact nextKind_append (htarget.2.2 hts.of_append) (by decide) _
  method hd hreceiver _ hkind hargs := by
    refine ⟨.method hd hreceiver.1 hreceiver.2.1 hkind (arguments hargs), rfl, fun hts => ?_⟩
    rw [Expr.tokensAt_method]
    exact nextKind_append (hreceiver.2.2 hts.of_append) (by decide) _
  expression h hname := .expression h.1 (h.2 hname)
  declaration _ h hτ := .declaration (annotated h).1 (annotated h).2.1 (annotated h).2.2 hτ
  function hd _ _ hτ hparams hnodup _ _ hreturns hbody := by
    obtain ⟨ρ, hbody⟩ := block hbody
    refine .function hd hτ ?_ hnodup (by rw [← Ty.eq_keyword hreturns]; exact hreturns) hbody
    exact hparams.elim fun _ _ _ h => h.elim fun _ _ _ hp => parameter hp
  ret _ h := .ret (h.elim fun _ _ _ he => he.1)
  branch hd _ hcondition hyes hno := by
    obtain ⟨ρ, hyes⟩ := block hyes
    refine .branch hd (hcondition.elim fun _ _ _ he => he.1) hyes ?_
    exact hno.elim fun _ _ _ h => h.elim fun _ _ _ hbody => block hbody
  loop hd _ hcondition hbody := by
    obtain ⟨ρ, hbody⟩ := block hbody
    exact .loop hd (hcondition.elim fun _ _ _ he => he.1) hbody
  each hd _ _ _ hiterator _ hiterable _ hbody := by
    obtain ⟨hname, hty, hinit⟩ := annotated hiterator
    obtain ⟨ρ, hbody⟩ := block hbody
    exact .each hd hname hty hinit hiterable.1 hbody
  brk _ := .brk
  cont _ := .cont
  par hd _ hbody := by
    obtain ⟨ρ, hbody⟩ := block hbody
    exact .par hd hbody
  seq hd _ hbody := by
    obtain ⟨ρ, hbody⟩ := block hbody
    exact .seq hd hbody
  client _ _ hτ _ hhost _ hport _ := .client hτ hhost.1 hport.1
  server _ _ hτ _ hhandler hty _ hdescription _ hhost _ hport _ :=
    .server hτ hhandler hty hdescription.1 hhost.1 hport.1
  nil := .nil
  skip _ h := h
  cons hs _ hrest := .cons hs hrest

end printing

-- The state before the first token of a text that faces the tokens `us`.
theorem Grammar.State.start_faces {tokens us : List Token}
    (h : tokens.map Token.unlined = us.map Token.unlined ++ [⟨.eof, "EOF", 0⟩]) :
    (State.start tokens).Faces Scope.root us := by
  cases tokens with
  | nil => cases us <;> cases h
  | cons t rest => exact ⟨rfl, h⟩

-- Fuel in proportion to the number of tokens is enough to read them.
theorem Grammar.BodyBack.program {p : Program} {τ : Scope} (h : BodyBack Scope.root 0 p τ)
    {tokens : List Token} (htokens : tokens.map Token.unlined =
      (Stmt.tokensOf p).map Token.unlined ++ [⟨.eof, "EOF", 0⟩]) :
    Yields (.start tokens) (program (fuelFor tokens)) (Ends fun q _ => q.unlined = p.unlined) := by
  have hlength : tokens.length = (Stmt.tokensOf p).length + 1 := by
    simpa using congrArg List.length htokens
  have hfuel : fuelFor tokens = 8 * tokens.length + 15 + 1 := by
    unfold fuelFor
    omega
  have hs := State.start_faces htokens
  rw [← List.append_nil (Stmt.tokensOf p)] at hs hlength
  rw [hfuel]
  refine .bind (h.reads hs (by omega) (by omega) (.inr rfl)) fun q t hq => .check ?_
  rw [hq.2.kind]
  exact .pure hq.1

-- Every program that has been read is printed as a text that is read as the same program, but
-- for the lines.
theorem printed_programs_are_read_back {source : String} {p : Program} (h : parse source = .ok p) :
    ∃ q, parse p.unparse = .ok q ∧ q.unlined = p.unlined := by
  obtain ⟨ts, eof, τ, -, -, hp⟩ := Reading.of_parse printing.closed h
  have hlex : (lex p.unparse).map Token.unlined =
      (Stmt.tokensOf p).map Token.unlined ++ [⟨.eof, "EOF", 0⟩] := by
    rw [lex, Program.unparse, String.toList_ofList]
    exact Lexer.lexFrom_text (allSpelled_of_parse h) 1
  obtain ⟨q, t, hread, hq⟩ := (BodyBack.program hp hlex).exists_ok
  refine ⟨q, ?_, hq⟩
  rw [parse, hread]
  rfl

-- A text with parentheses of which the printer keeps only those that are needed.
def manyParentheses : String :=
  "var a: list = [((1)), 2 - (3 - 4)]
  a[(0)] = -(a[1 + 1:] == \"b\" && (a = []))
  if ((a)) \x7b return \x7d"

set_option maxRecDepth 10000 in
example : (parse manyParentheses).toOption.map Program.unparse =
    some ("var a : list = [ 1 , 2 - ( 3 - 4 ) ] ; " ++
      "a [ 0 ] = - ( a [ 1 + 1 : ] == \"b\" && ( a = [ ] ) ) ; " ++
      "if ( a ) \x7b return ; \x7d ;") := by
  decide +kernel

set_option maxRecDepth 10000 in
theorem manyParentheses_is_read_back :
    ∃ p, parse manyParentheses = .ok p ∧
      ∃ q, parse p.unparse = .ok q ∧ q.unlined = p.unlined := by
  obtain ⟨p, hp⟩ : ∃ p, parse manyParentheses = .ok p := exists_of_isOk (by decide +kernel)
  exact ⟨p, hp, printed_programs_are_read_back hp⟩

end Parlance
