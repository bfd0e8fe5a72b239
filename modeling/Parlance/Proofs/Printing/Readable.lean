import Parlance.Proofs.Grammar.Reading
import Parlance.Proofs.Printing

namespace Parlance

open Grammar
open Token (mark)

namespace Grammar.Rank

theorem level_next {r : Rank} (h : r ≠ .primary) : r.next.level = r.level + 1 := by
  cases r with
  | primary => exact absurd rfl h
  | _ => rfl

theorem level_inj {r r' : Rank} (h : r.level = r'.level) : r = r' := by
  cases r <;> cases r' <;> first | rfl | cases h

theorem level_le_primary (r : Rank) : r.level ≤ primary.level := by
  cases r <;> decide

theorem rank_node {r : Rank} {operator : Token} (h : operator.kind ∈ r.operators)
    (left right : Expr) : (r.node operator left right).rank = r := by
  cases r with
  | assignment | unary | primary => cases h
  | logicOr | logicAnd | equality | sum => simp_all [operators, node, Expr.rank]
  | comparison =>
    simp only [operators, List.mem_cons, List.not_mem_nil, or_false] at h
    rcases h with h | h | h | h <;> simp [node, Expr.rank, h]
  | term =>
    simp only [operators, List.mem_cons, List.not_mem_nil, or_false] at h
    rcases h with h | h | h <;> simp [node, Expr.rank, h]

end Grammar.Rank

namespace Grammar

-- The tokens that a primary, and an expression, can start with.
def startsPrimary : TokenKind → Bool
  | .id | .number | .string | .kwTrue | .kwFalse | .leftParen | .leftBracket | .leftBrace => true
  | _ => false

def startsExpr : TokenKind → Bool
  | .bang | .minus => true
  | kind => startsPrimary kind

theorem startsExpr_of_startsPrimary {kind : TokenKind} (h : startsPrimary kind = true) :
    startsExpr kind = true := by
  unfold startsExpr
  split
  · rfl
  · rfl
  · exact h

theorem startsPrimary_of_isConstant {kind : TokenKind} (h : isConstant kind = true) :
    startsPrimary kind = true := by
  unfold isConstant at h
  split at h <;> first | rfl | cases h

end Grammar

namespace Expr

theorem tokensAt_next {r : Rank} {e : Expr} (hr : r ≠ .primary) (hrank : e.rank ≠ r) :
    e.tokensAt r = e.tokensAt r.next := by
  have hlevel := Rank.level_next hr
  have hne : e.rank.level ≠ r.level := fun h => hrank (Rank.level_inj h)
  unfold tokensAt wrapped
  split
  · rw [if_pos (by omega)]
  · rw [if_neg (by omega)]

theorem tokensAt_primary {e : Expr} (h : e.rank ≠ .primary) :
    e.tokensAt .primary =
      mark .leftParen :: (e.tokensAt .assignment ++ [mark .rightParen]) := by
  have hle := e.rank.level_le_primary
  have hne : e.rank.level ≠ Rank.primary.level := fun h' => h (Rank.level_inj h')
  rw [tokensAt_assignment, tokensAt, wrapped, if_pos (by omega)]

theorem tokensAt_node {r : Rank} {operator : Token} (h : operator.kind ∈ r.operators)
    (left right : Expr) :
    (r.node operator left right).tokensAt r =
      left.tokensAt r ++ operator :: right.tokensAt r.next := by
  have hrank := Rank.rank_node h left right
  rw [tokensAt_of_rank hrank]
  cases r with
  | assignment | unary | primary => cases h
  | logicOr | logicAnd =>
    simp only [Rank.node] at hrank ⊢
    rw [tokens, hrank]
    rfl
  | equality | comparison =>
    simp only [Rank.node] at hrank ⊢
    rw [tokens, hrank]
    rfl
  | sum | term =>
    simp only [Rank.node] at hrank ⊢
    rw [tokens, hrank]
    rfl

-- A name, or what a suffix stands behind.
def isSuffixed : Expr → Bool
  | name _ _ => true
  | access _ _ => true
  | slice _ _ _ => true
  | call _ _ _ => true
  | method _ _ _ => true
  | _ => false

-- Expressions that can be read where one of a rank is wanted, with parentheses only where
-- their own rank is looser than that. The depth is that of the place where they stand.
inductive Readable : Scope → Nat → Rank → Expr → Prop
  | tighter {σ d r e} (hr : r ≠ .primary) (hrank : e.rank ≠ r) (h : Readable σ d r.next e) :
      Readable σ d r e
  | grouped {σ d e} (hd : d < maxNesting) (hrank : e.rank ≠ .primary)
      (h : Readable σ (d + 1) .assignment e) : Readable σ d .primary e
  | assign {σ d equal target value} (hd : d < maxNesting) (htarget : Readable σ d .logicOr target)
      (hassignable : target.isAssignable = true) (hequal : equal.kind = .equal)
      (hvalue : Readable σ (d + 1) .assignment value) :
      Readable σ d .assignment (.assign equal target value)
  | binary {σ d r operator left right} (hleft : Readable σ d r left)
      (hoperator : operator.kind ∈ r.operators) (hright : Readable σ d r.next right) :
      Readable σ d r (r.node operator left right)
  | unary {σ d operator operand} (hd : d < maxNesting)
      (hoperator : operator.kind = .bang ∨ operator.kind = .minus)
      (h : Readable σ (d + 1) .unary operand) : Readable σ d .unary (.unary operator operand)
  | constant {σ d t} (hd : d < maxNesting) (hkind : isConstant t.kind = true) :
      Readable σ d .primary (.constant t)
  | array {σ d bracket items} (hd : d < maxNesting) (hbracket : bracket.kind = .leftBracket)
      (h : ∀ e ∈ items, Readable σ (d + 1) .assignment e) :
      Readable σ d .primary (.array bracket items)
  | dict {σ d brace} {entries : List (String × Expr)} (hd : d < maxNesting)
      (hbrace : brace.kind = .leftBrace)
      (h : ∀ e ∈ entries, Readable σ (d + 1) .assignment e.2) :
      Readable σ d .primary (.dict brace entries)
  | comprehension {σ τ d bracket iterator ty init iterable projection} (hd : d < maxNesting)
      (hbracket : bracket.kind = .leftBracket) (hiterator : iterator.kind = .id)
      (hty : Ty.ofKeyword? ty.keyword = some ty)
      (hinit : ∀ e ∈ init, Readable σ.push (d + 1) .logicOr e)
      (hτ : σ.push.insert? iterator.lexeme ty = some τ)
      (hiterable : Readable τ (d + 1) .assignment iterable)
      (hprojection : Readable τ (d + 1) .assignment projection) :
      Readable σ d .primary (.comprehension bracket iterator ty init iterable projection)
  | name {σ : Scope} {d t ty} (hd : d < maxNesting) (hkind : t.kind = .id)
      (h : σ.find? t.lexeme = some ty) : Readable σ d .primary (.name t ty)
  | call {σ : Scope} {d callee ty args} (hd : d < maxNesting) (hkind : callee.kind = .id)
      (h : σ.find? callee.lexeme = some ty)
      (hargs : ∀ e ∈ args, Readable σ (d + 1) .assignment e) :
      Readable σ d .primary (.call callee ty args)
  | access {σ d target index} (hd : d < maxNesting) (htarget : Readable σ d .primary target)
      (hsuffixed : target.isSuffixed = true) (hindex : Readable σ (d + 1) .sum index) :
      Readable σ d .primary (.access target index)
  | slice {σ d target start stop} (hd : d < maxNesting) (htarget : Readable σ d .primary target)
      (hsuffixed : target.isSuffixed = true) (hstart : ∀ e ∈ start, Readable σ (d + 1) .sum e)
      (hstop : ∀ e ∈ stop, Readable σ (d + 1) .sum e) :
      Readable σ d .primary (.slice target start stop)
  | method {σ d receiver operation args} (hd : d < maxNesting)
      (hreceiver : Readable σ d .primary receiver) (hsuffixed : receiver.isSuffixed = true)
      (hkind : operation.kind = .id) (hargs : ∀ e ∈ args, Readable σ (d + 1) .assignment e) :
      Readable σ d .primary (.method receiver operation args)

namespace Readable

variable {σ : Scope} {d : Nat} {r : Rank} {e : Expr}

-- What can be read can also be read at a place that is less deep.
theorem shallower (h : e.Readable σ d r) : ∀ d' ≤ d, e.Readable σ d' r := by
  induction h with
  | tighter hr hrank _ ih => exact fun d' hd' => .tighter hr hrank (ih d' hd')
  | grouped hd hrank _ ih => exact fun d' hd' => .grouped (by omega) hrank (ih _ (by omega))
  | assign hd _ hassignable hequal _ ihtarget ihvalue =>
    exact fun d' hd' =>
      .assign (by omega) (ihtarget d' hd') hassignable hequal (ihvalue _ (by omega))
  | binary _ hoperator _ ihleft ihright =>
    exact fun d' hd' => .binary (ihleft d' hd') hoperator (ihright d' hd')
  | unary hd hoperator _ ih => exact fun d' hd' => .unary (by omega) hoperator (ih _ (by omega))
  | constant hd hkind => exact fun d' hd' => .constant (by omega) hkind
  | array hd hbracket _ ih =>
    exact fun d' hd' => .array (by omega) hbracket fun e he => ih e he _ (by omega)
  | dict hd hbrace _ ih =>
    exact fun d' hd' => .dict (by omega) hbrace fun e he => ih e he _ (by omega)
  | comprehension hd hbracket hiterator hty _ hτ _ _ ihinit ihiterable ihprojection =>
    exact fun d' hd' =>
      .comprehension (by omega) hbracket hiterator hty (fun e he => ihinit e he _ (by omega)) hτ
        (ihiterable _ (by omega)) (ihprojection _ (by omega))
  | name hd hkind h => exact fun d' hd' => .name (by omega) hkind h
  | call hd hkind h _ ih =>
    exact fun d' hd' => .call (by omega) hkind h fun e he => ih e he _ (by omega)
  | access hd _ hsuffixed _ ihtarget ihindex =>
    exact fun d' hd' => .access (by omega) (ihtarget d' hd') hsuffixed (ihindex _ (by omega))
  | slice hd _ hsuffixed _ _ ihtarget ihstart ihstop =>
    exact fun d' hd' =>
      .slice (by omega) (ihtarget d' hd') hsuffixed (fun e he => ihstart e he _ (by omega))
        fun e he => ihstop e he _ (by omega)
  | method hd _ hsuffixed hkind _ ihreceiver ihargs =>
    exact fun d' hd' =>
      .method (by omega) (ihreceiver d' hd') hsuffixed hkind fun e he => ihargs e he _ (by omega)

-- An expression that is not of the rank that is wanted is read as one of the next rank, or
-- it stands in parentheses.
theorem of_rank_ne (h : e.Readable σ d r) (hrank : e.rank ≠ r) :
    r ≠ .primary ∧ e.Readable σ d r.next ∨
      r = .primary ∧ d < maxNesting ∧ e.Readable σ (d + 1) .assignment := by
  cases h with
  | tighter hr _ h => exact .inl ⟨hr, h⟩
  | grouped hd _ h => exact .inr ⟨rfl, hd, h⟩
  | binary _ hoperator _ => exact absurd (Rank.rank_node hoperator _ _) hrank
  | _ => exact absurd rfl hrank

-- Without parentheses an expression is read at its own rank.
theorem climb (h : e.Readable σ d r) (hle : r.level ≤ e.rank.level) : e.Readable σ d e.rank := by
  induction hn : e.rank.level - r.level generalizing r with
  | zero =>
    have heq : r = e.rank := Rank.level_inj (by omega)
    exact heq ▸ h
  | succ n ih =>
    have hne : e.rank ≠ r := by
      rintro rfl
      omega
    rcases h.of_rank_ne hne with ⟨hr, hnext⟩ | ⟨rfl, -⟩
    · have hlevel := Rank.level_next hr
      exact ih hnext (by omega) (by omega)
    · have := e.rank.level_le_primary
      omega

-- An expression that is looser than what is wanted stands in parentheses.
theorem ungroup (h : e.Readable σ d r) (hlt : e.rank.level < r.level) :
    d < maxNesting ∧ e.Readable σ (d + 1) .assignment := by
  induction hn : Rank.primary.level - r.level generalizing r with
  | zero =>
    have hle := r.level_le_primary
    have heq : r = .primary := Rank.level_inj (by omega)
    subst heq
    have hne : e.rank ≠ .primary := by
      intro heq
      rw [heq] at hlt
      omega
    rcases h.of_rank_ne hne with ⟨hr, _⟩ | ⟨_, h⟩
    · exact absurd rfl hr
    · exact h
  | succ n ih =>
    have hne : e.rank ≠ r := by
      rintro rfl
      omega
    rcases h.of_rank_ne hne with ⟨hr, hnext⟩ | ⟨rfl, _⟩
    · have hlevel := Rank.level_next hr
      exact ih hnext (by omega) (by omega)
    · omega

-- What can be read where a rank is wanted can be read where the one before it is.
theorem of_next (h : e.Readable σ d r.next) : e.Readable σ d r := by
  by_cases hr : r = .primary
  · subst hr
    exact h
  · by_cases hrank : e.rank = r
    · have hlevel := Rank.level_next hr
      obtain ⟨_, h⟩ := h.ungroup (by rw [hrank]; omega)
      have hown := h.climb (Nat.zero_le _)
      rw [hrank] at hown
      exact hown.shallower d (Nat.le_succ d)
    · exact .tighter hr hrank h

-- Parentheses can be left out where they are not needed.
theorem of_grouped (hd : d < maxNesting) (h : e.Readable σ (d + 1) .assignment) :
    e.Readable σ d .primary := by
  by_cases hrank : e.rank = .primary
  · have hown := h.climb (Nat.zero_le _)
    rw [hrank] at hown
    exact hown.shallower d (Nat.le_succ d)
  · exact .grouped hd hrank h

-- What stands where a primary is wanted is one level deeper.
theorem lt_maxNesting (h : e.Readable σ d .primary) : d < maxNesting := by
  cases h with
  | tighter hr => exact absurd rfl hr
  | binary _ hoperator _ => cases hoperator
  | _ => assumption

end Readable

-- The first of the tokens that an expression is printed as starts an expression.
structure Starts (r : Rank) (ts : List Token) : Prop where
  expr : ∃ t ∈ ts.head?, startsExpr t.kind = true
  primary : r = .primary → ∃ t ∈ ts.head?, startsPrimary t.kind = true

theorem Starts.of_primary {t : Token} {ts : List Token} {r : Rank}
    (h : startsPrimary t.kind = true) : Starts r (t :: ts) :=
  ⟨⟨t, rfl, startsExpr_of_startsPrimary h⟩, fun _ => ⟨t, rfl, h⟩⟩

theorem Starts.append {r : Rank} {ts us : List Token} (h : Starts r ts) : Starts r (ts ++ us) := by
  have hhead : ∀ t ∈ ts.head?, t ∈ (ts ++ us).head? := by
    intro t ht
    cases ts with
    | nil => cases ht
    | cons u ts => exact ht
  obtain ⟨⟨t, ht, hkind⟩, hprimary⟩ := h
  refine ⟨⟨t, hhead t ht, hkind⟩, fun hr => ?_⟩
  obtain ⟨t, ht, hkind⟩ := hprimary hr
  exact ⟨t, hhead t ht, hkind⟩

theorem Starts.weaken {r r' : Rank} {ts : List Token} (h : Starts r ts) (hr : r' ≠ .primary) :
    Starts r' ts :=
  ⟨h.expr, fun h => absurd h hr⟩

theorem Readable.starts {σ : Scope} {d : Nat} {r : Rank} {e : Expr} (h : e.Readable σ d r) :
    Starts r (e.tokensAt r) := by
  induction h with
  | tighter hr hrank _ ih =>
    rw [tokensAt_next hr hrank]
    exact ih.weaken hr
  | grouped _ hrank _ _ =>
    rw [tokensAt_primary hrank]
    exact .of_primary rfl
  | assign _ _ _ _ _ ihtarget _ =>
    rw [tokensAt_assign]
    exact (ihtarget.weaken (by decide)).append
  | binary _ hoperator _ ihleft _ =>
    rw [tokensAt_node hoperator]
    exact ihleft.append
  | @unary _ _ operator _ _ hoperator _ _ =>
    rw [tokensAt_unary]
    refine ⟨⟨operator, rfl, ?_⟩, fun h => by cases h⟩
    rcases hoperator with h | h <;> rw [h] <;> rfl
  | constant _ hkind =>
    rw [tokensAt_constant]
    exact .of_primary (startsPrimary_of_isConstant hkind)
  | array _ hkind _ _ =>
    rw [tokensAt_array]
    exact .of_primary (by rw [hkind]; rfl)
  | dict _ hkind _ _ =>
    rw [tokensAt_dict]
    exact .of_primary (by rw [hkind]; rfl)
  | comprehension _ hkind _ _ _ _ _ _ _ _ _ =>
    rw [tokensAt_comprehension]
    exact .of_primary (by rw [hkind]; rfl)
  | name _ hkind _ =>
    rw [tokensAt_name]
    exact .of_primary (by rw [hkind]; rfl)
  | call _ hkind _ _ _ =>
    rw [tokensAt_call]
    exact .of_primary (by rw [hkind]; rfl)
  | access _ _ _ _ ih _ =>
    rw [tokensAt_access]
    exact ih.append
  | slice _ _ _ _ _ ih _ _ =>
    rw [tokensAt_slice]
    exact ih.append
  | method _ _ _ _ _ ih _ =>
    rw [tokensAt_method]
    exact ih.append

end Expr

end Parlance
