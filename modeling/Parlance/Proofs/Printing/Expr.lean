import Parlance.Proofs.Printing.Readable
import Parlance.Proofs.Printing.Yields

namespace Parlance

-- The rank of the phrases that a token of a class continues.
def TokenKind.binds : TokenKind → Option Grammar.Rank
  | equal => some .assignment
  | or => some .logicOr
  | and => some .logicAnd
  | equalEqual | notEqual => some .equality
  | less | lessEqual | greater | greaterEqual => some .comparison
  | plus | minus => some .sum
  | star | slash | percent => some .term
  | leftBracket | dot | leftParen => some .primary
  | _ => none

theorem Expr.Starts.startsExpr_nextKind {r : Grammar.Rank} {ts : List Token} (h : Starts r ts)
    (us : List Token) : Grammar.startsExpr (Grammar.nextKind (ts ++ us)) = true := by
  obtain ⟨t, ht, hkind⟩ := h.expr
  cases ts with
  | nil => cases ht
  | cons u ts =>
    cases ht
    exact hkind

theorem Expr.Starts.startsPrimary_nextKind {ts : List Token} (h : Starts .primary ts)
    (us : List Token) : Grammar.startsPrimary (Grammar.nextKind (ts ++ us)) = true := by
  obtain ⟨t, ht, hkind⟩ := h.primary rfl
  cases ts with
  | nil => cases ht
  | cons u ts =>
    cases ht
    exact hkind

-- An expression does not start with a token that no expression starts with.
theorem Expr.Readable.nextKind_ne {σ : Scope} {d : Nat} {r : Grammar.Rank} {e : Expr}
    {kind : TokenKind} (h : e.Readable σ d r) (hkind : Grammar.startsExpr kind = false)
    (us : List Token) : Grammar.nextKind (e.tokensAt r ++ us) ≠ kind := by
  rintro rfl
  rw [h.starts.startsExpr_nextKind us] at hkind
  cases hkind

theorem Expr.isAssignable_unlined (e : Expr) : e.unlined.isAssignable = e.isAssignable := by
  cases e <;> rfl

theorem Expr.isSuffixed_unlined (e : Expr) : e.unlined.isSuffixed = e.isSuffixed := by
  cases e <;> rfl

namespace Grammar

open Token (mark)

theorem Rank.binds_of_mem_operators {r : Rank} {kind : TokenKind} (h : kind ∈ r.operators) :
    kind.binds = some r := by
  cases r <;> simp only [operators, List.mem_cons, List.not_mem_nil, or_false] at h
  case logicOr | logicAnd => rw [h]; rfl
  case equality | sum => rcases h with rfl | rfl <;> rfl
  case comparison => rcases h with rfl | rfl | rfl | rfl <;> rfl
  case term => rcases h with rfl | rfl | rfl <;> rfl

-- The next token continues no phrase of the level `n` or a tighter one.
def Stops (n : Nat) (us : List Token) : Prop :=
  ∀ r ∈ (nextKind us).binds, r.level < n

namespace Stops

variable {n m : Nat} {t : Token} {us : List Token}

theorem mono (h : Stops n us) (hle : n ≤ m) : Stops m us :=
  fun r hr => Nat.lt_of_lt_of_le (h r hr) hle

theorem of_none (h : (nextKind us).binds = none) : Stops n us := by
  intro r hr
  rw [h] at hr
  cases hr

theorem operator {r : Rank} (h : t.kind ∈ r.operators) : Stops (r.level + 1) (t :: us) := by
  intro r' hr'
  rw [nextKind, Rank.binds_of_mem_operators h] at hr'
  cases hr'
  exact Nat.lt_succ_self _

theorem not_mem_operators {r : Rank} (h : Stops r.level us) : nextKind us ∉ r.operators :=
  fun hmem => Nat.lt_irrefl _ (h r (Rank.binds_of_mem_operators hmem))

theorem ne {r : Rank} {kind : TokenKind} (h : Stops r.level us) (hkind : kind.binds = some r) :
    nextKind us ≠ kind := by
  rintro rfl
  exact Nat.lt_irrefl _ (h r hkind)

end Stops

theorem Rank.unlined_node (r : Rank) (operator : Token) (left right : Expr) :
    (r.node operator left right).unlined =
      r.node operator.unlined left.unlined right.unlined := by
  cases r <;> rfl

-- The level of the reader whose operators stand between operands of a rank. There are none
-- between operands of the other ranks.
def Rank.chainLevel : Rank → Level
  | logicOr => .logicOr
  | logicAnd => .logicAnd
  | equality => .equality
  | comparison => .comparison
  | sum => .sum
  | term => .term
  | _ => ⟨fun _ => false, .arithmetic⟩

theorem Rank.chainLevel_is (r : Rank) : r.chainLevel.Is r := by
  cases r with
  | logicOr => exact Level.logicOr_is
  | logicAnd => exact Level.logicAnd_is
  | equality => exact Level.equality_is
  | comparison => exact Level.comparison_is
  | sum => exact Level.sum_is
  | term => exact Level.term_is
  | assignment | unary | primary => exact ⟨fun _ => by simp [chainLevel, operators], rfl⟩

-- The reader of expressions of a rank at a depth. The fuel is that of the reader of
-- primaries, which the others come down to.
def readerAt (fuel d : Nat) : Rank → Parse Expr
  | .assignment => assignment (fuel + 2) d
  | .logicOr => Level.parse (unary (fuel + 1) d) (fuel + 1) Level.all
  | .logicAnd => Level.parse (unary (fuel + 1) d) (fuel + 1) Level.all.tail
  | .equality => Level.parse (unary (fuel + 1) d) (fuel + 1) Level.all.tail.tail
  | .comparison => Level.parse (unary (fuel + 1) d) (fuel + 1) (.comparison :: Level.sums)
  | .sum => Level.parse (unary (fuel + 1) d) (fuel + 1) Level.sums
  | .term => Level.parse (unary (fuel + 1) d) (fuel + 1) Level.sums.tail
  | .unary => unary (fuel + 1) d
  | .primary => primary (readers fuel (d + 1)) fuel

theorem readerAt_of_operators {r : Rank} (h : r.operators ≠ []) (fuel d : Nat) :
    readerAt fuel d r =
      readerAt fuel d r.next >>= r.chainLevel.chain (readerAt fuel d r.next) (fuel + 1) := by
  cases r with
  | assignment | unary | primary => exact absurd rfl h
  | _ => rfl

theorem readerAt_unary (fuel d : Nat) :
    readerAt fuel d .unary = nested d fun d => peek >>= fun token =>
      if token.kind = .bang ∨ token.kind = .minus then
        advance >>= fun operator => unary fuel d >>= fun operand =>
          pure (.unary operator operand)
      else primary (readers fuel d) fuel :=
  rfl

-- What the reader of a rank goes on with after it has read `e`, with fuel `m` left.
def resume (fuel d : Nat) (r : Rank) (m : Nat) (e : Expr) : Parse Expr :=
  match r with
  | .assignment | .unary => pure e
  | .primary => if e.isSuffixed then suffixes (readers fuel (d + 1)) m e else pure e
  | r => r.chainLevel.chain (readerAt fuel d r.next) m e

theorem resume_of_operators {r : Rank} (h : r.operators ≠ []) (fuel d m : Nat) (e : Expr) :
    resume fuel d r m e = r.chainLevel.chain (readerAt fuel d r.next) m e := by
  cases r with
  | assignment | unary | primary => exact absurd rfl h
  | _ => rfl

-- The level of the next token after which the reader of a rank resumes with what it has read:
-- assignments and unary operators are read to their end at once.
def Rank.resumesAt : Rank → Nat
  | assignment => assignment.level
  | unary => unary.level
  | r => r.level + 1

theorem Rank.resumesAt_of_operators {r : Rank} (h : r.operators ≠ []) :
    r.resumesAt = r.next.level := by
  cases r with
  | assignment | unary | primary => exact absurd rfl h
  | _ => rfl

theorem Rank.level_le_resumesAt (r : Rank) : r.level ≤ r.resumesAt := by
  cases r <;> decide

-- A reader has read `e` up to the lines, and resumes in front of `us`.
def Resumes (σ : Scope) (fuel d : Nat) (r : Rank) (us : List Token) (e : Expr)
    (result : Except Stop (Expr × State)) : Prop :=
  ∃ m e' t, result = resume fuel d r m e' t ∧ us.length < m ∧ e'.unlined = e.unlined ∧
    t.Faces σ us

-- An expression that is read from the tokens that it is printed as.
def ReadBack (σ : Scope) (d : Nat) (r : Rank) (e : Expr) : Prop :=
  ∀ ⦃fuel s us⦄, s.Faces σ (e.tokensAt r ++ us) → 2 * (e.tokensAt r ++ us).length ≤ fuel →
    Stops r.resumesAt us → Yields s (readerAt fuel d r) (Resumes σ fuel d r us e)

section

variable {σ : Scope} {s : State} {us : List Token} {d fuel m : Nat} {r : Rank} {e : Expr}

theorem chain_of_stops {level : Level} {operand : Parse Expr} (hlevel : level.Is r)
    (hs : s.Faces σ us) (hm : us.length < m) (hstops : Stops r.level us) :
    level.chain operand m e s = .ok (e, s) := by
  obtain ⟨m, rfl⟩ := Nat.exists_eq_succ_of_ne_zero (Nat.ne_zero_of_lt hm)
  have hoperator : ¬ level.isOperator s.current.kind = true := by
    rw [hlevel.operator, hs.kind]
    exact hstops.not_mem_operators
  show (if level.isOperator s.current.kind = true then _ else pure e : Parse Expr) s = _
  rw [if_neg hoperator]
  rfl

theorem suffixes_of_stops {r : Readers} (hs : s.Faces σ us) (hm : us.length < m)
    (hstops : Stops Rank.primary.level us) : suffixes r m e s = .ok (e, s) := by
  obtain ⟨m, rfl⟩ := Nat.exists_eq_succ_of_ne_zero (Nat.ne_zero_of_lt hm)
  have hgoal : Yields s (suffixes r (m + 1) e) (· = .ok (e, s)) := by
    refine .peek ?_
    split
    · next h => exact absurd (hs.kind.symm.trans h) (hstops.ne rfl)
    · next h => exact absurd (hs.kind.symm.trans h) (hstops.ne rfl)
    · next h => exact absurd (hs.kind.symm.trans h) (hstops.ne rfl)
    · rfl
  exact hgoal

-- A reader that resumes in front of a token that continues nothing is done.
theorem Resumes.ends {result : Except Stop (Expr × State)} (h : Resumes σ fuel d r us e result)
    (hstops : Stops r.level us) : Leaves σ us (fun e' => e'.unlined = e.unlined) result := by
  obtain ⟨m, e', t, rfl, hm, he, ht⟩ := h
  have hresume : resume fuel d r m e' t = .ok (e', t) := by
    by_cases hr : r.operators = []
    · cases r with
      | assignment | unary => rfl
      | primary =>
        unfold resume
        split
        · exact suffixes_of_stops ht hm hstops
        · rfl
      | _ => cases hr
    · rw [resume_of_operators hr]
      exact chain_of_stops r.chainLevel_is ht hm hstops
  rw [hresume]
  exact ⟨he, ht⟩

-- A reader that is done resumes, where it would do nothing more.
theorem Yields.resumes {x : Parse Expr}
    (h : Yields s x (Leaves σ us fun e' => e'.unlined = e.unlined))
    (hresume : ∀ m e', e'.unlined = e.unlined → resume fuel d r m e' = Pure.pure e') :
    Yields s x (Resumes σ fuel d r us e) := by
  obtain ⟨e', t, hx, he', ht⟩ := h.exists_ok
  refine ⟨us.length + 1, e', t, ?_, Nat.lt_succ_self _, he', ht⟩
  rw [hresume _ _ he', hx]
  rfl

namespace ReadBack

theorem ends (h : ReadBack σ d r e) (hs : s.Faces σ (e.tokensAt r ++ us))
    (hfuel : 2 * (e.tokensAt r ++ us).length ≤ fuel) (hstops : Stops r.level us) :
    Yields s (readerAt fuel d r) (Leaves σ us fun e' => e'.unlined = e.unlined) :=
  (h hs hfuel (hstops.mono r.level_le_resumesAt)).ends hstops

theorem full (h : ReadBack σ d .assignment e) (hs : s.Faces σ (e.tokensAt .assignment ++ us))
    (hfuel : 2 * (e.tokensAt .assignment ++ us).length + 2 ≤ fuel)
    (hstops : Stops Rank.assignment.level us) :
    Yields s (assignment fuel d) (Leaves σ us fun e' => e'.unlined = e.unlined) := by
  obtain ⟨fuel, rfl⟩ := Nat.exists_eq_add_of_le' (Nat.le_of_add_left_le hfuel)
  exact h.ends hs (by omega) hstops

theorem plain (h : ReadBack σ d .logicOr e) (hs : s.Faces σ (e.tokensAt .logicOr ++ us))
    (hfuel : 2 * (e.tokensAt .logicOr ++ us).length + 1 ≤ fuel)
    (hstops : Stops Rank.logicOr.level us) :
    Yields s (Level.parse (unary fuel d) fuel Level.all)
      (Leaves σ us fun e' => e'.unlined = e.unlined) := by
  obtain ⟨fuel, rfl⟩ := Nat.exists_eq_add_of_le' (Nat.le_of_add_left_le hfuel)
  exact h.ends hs (by omega) hstops

theorem sum (h : ReadBack σ d .sum e) (hs : s.Faces σ (e.tokensAt .sum ++ us))
    (hfuel : 2 * (e.tokensAt .sum ++ us).length + 1 ≤ fuel) (hstops : Stops Rank.sum.level us) :
    Yields s (Level.parse (unary fuel d) fuel Level.sums)
      (Leaves σ us fun e' => e'.unlined = e.unlined) := by
  obtain ⟨fuel, rfl⟩ := Nat.exists_eq_add_of_le' (Nat.le_of_add_left_le hfuel)
  exact h.ends hs (by omega) hstops

-- After an operand of a rank comes what operators of the rank make of it.
theorem of_next {e : Expr} (hr : r.operators ≠ []) (hrank : e.rank ≠ r)
    (h : ReadBack σ d r.next e) : ReadBack σ d r e := by
  intro fuel s us hs hfuel hstops
  have hne : r ≠ .primary := by
    rintro rfl
    exact hr rfl
  rw [Expr.tokensAt_next hne hrank] at hs hfuel
  rw [Rank.resumesAt_of_operators hr] at hstops
  rw [readerAt_of_operators hr]
  refine .bind (h.ends hs hfuel hstops) fun e' t ht => ?_
  refine ⟨fuel + 1, e', t, by rw [resume_of_operators hr], ?_, ht.1, ht.2⟩
  simp only [List.length_append] at hfuel
  omega

theorem binary {operator : Token} {left right : Expr} (hleft : ReadBack σ d r left)
    (hoperator : operator.kind ∈ r.operators) (hright : ReadBack σ d r.next right) :
    ReadBack σ d r (r.node operator left right) := by
  intro fuel s us hs hfuel hstops
  have hr : r.operators ≠ [] := List.ne_nil_of_mem hoperator
  have hresumes : r.resumesAt = r.level + 1 := by
    rw [Rank.resumesAt_of_operators hr, Rank.level_next (by rintro rfl; exact hr rfl)]
  rw [Expr.tokensAt_node hoperator, List.append_assoc, List.cons_append] at hs hfuel
  obtain ⟨m, left', t, heq, hm, hleft', ht⟩ :=
    hleft hs hfuel (hresumes ▸ Stops.operator hoperator)
  simp only [List.length_append, List.length_cons] at hfuel hm
  obtain ⟨m, rfl⟩ := Nat.exists_eq_succ_of_ne_zero (Nat.ne_zero_of_lt hm)
  unfold Yields
  rw [heq, resume_of_operators hr]
  have hkind : r.chainLevel.isOperator t.current.kind = true := by
    rw [r.chainLevel_is.operator, ht.kind]
    exact hoperator
  have hchain : Yields t (r.chainLevel.chain (readerAt fuel d r.next) (m + 1) left')
      (Resumes σ fuel d r us (r.node operator left right)) := by
    refine .peek ?_
    rw [if_pos hkind]
    refine .advance ht fun operator' u hoperator' hu => ?_
    have hus : Stops r.next.level us := Rank.resumesAt_of_operators hr ▸ hstops
    refine .bind (hright.ends hu (by simp; omega) hus) fun right' v hv => ?_
    refine ⟨m, r.node operator' left' right', v, ?_, by omega, ?_, hv.2⟩
    · rw [resume_of_operators hr, r.chainLevel_is.node]
    · rw [Rank.unlined_node, Rank.unlined_node, hoperator', hleft', hv.1]
  exact hchain

-- What binds tighter than an assignment ends where no `=` follows.
theorem of_logicOr (hrank : e.rank ≠ .assignment) (h : ReadBack σ d .logicOr e) :
    ReadBack σ d .assignment e := by
  intro fuel s us hs hfuel hstops
  rw [Expr.tokensAt_next (by decide) hrank] at hs hfuel
  have hne : nextKind us ≠ .equal := Stops.ne (r := .assignment) hstops rfl
  refine Yields.resumes (.bind (h.ends hs hfuel (hstops.mono (Nat.zero_le _))) ?_) fun _ _ _ => rfl
  rintro e' t ⟨he', ht⟩
  refine .check ?_
  rw [ht.kind, decide_eq_false hne]
  exact .pure ⟨he', ht⟩

theorem of_primary (hreadable : e.Readable σ d .primary) (hrank : e.rank ≠ .unary)
    (h : ReadBack σ d .primary e) : ReadBack σ d .unary e := by
  intro fuel s us hs hfuel hstops
  rw [Expr.tokensAt_next (by decide) hrank] at hs hfuel
  have hstart : startsPrimary s.current.kind = true := by
    rw [hs.kind]
    exact hreadable.starts.startsPrimary_nextKind us
  have hkind : ¬ (s.current.kind = .bang ∨ s.current.kind = .minus) := by
    rintro (heq | heq)
    · rw [heq] at hstart
      cases hstart
    · rw [heq] at hstart
      cases hstart
  refine Yields.resumes ?_ fun _ _ _ => rfl
  rw [readerAt_unary]
  refine .nested hreadable.lt_maxNesting (.peek ?_)
  rw [if_neg hkind]
  exact h.ends hs hfuel (hstops.mono (by decide))

theorem assign {equal : Token} {target value : Expr} (hd : d < maxNesting)
    (htarget : ReadBack σ d .logicOr target) (hassignable : target.isAssignable = true)
    (hequal : equal.kind = .equal) (hvalue : ReadBack σ (d + 1) .assignment value) :
    ReadBack σ d .assignment (.assign equal target value) := by
  intro fuel s us hs hfuel hstops
  rw [Expr.tokensAt_assign, List.append_assoc, List.cons_append] at hs hfuel
  have hfollows : Stops Rank.logicOr.level (equal :: (value.tokensAt .assignment ++ us)) := by
    intro r hr
    rw [nextKind, hequal] at hr
    cases hr
    decide
  refine Yields.resumes (.bind (htarget.ends hs hfuel hfollows) ?_) fun _ _ _ => rfl
  rintro target' t ⟨htarget', ht⟩
  have hassignable' : target'.isAssignable = true := by
    rw [← Expr.isAssignable_unlined, htarget', Expr.isAssignable_unlined]
    exact hassignable
  refine .check ?_
  rw [ht.kind, nextKind, decide_eq_true hequal, if_pos rfl]
  refine .advance ht fun equal' u hequal' hu => ?_
  rw [if_pos hassignable']
  simp only [List.length_append, List.length_cons] at hfuel
  refine .bind (.nested hd (hvalue.full hu (by simp; omega) hstops)) fun value' v hv => ?_
  refine .pure ⟨?_, hv.2⟩
  simp only [Expr.unlined, hequal', htarget', hv.1]

theorem unary {operator : Token} {operand : Expr} (hd : d < maxNesting)
    (hoperator : operator.kind = .bang ∨ operator.kind = .minus)
    (h : ReadBack σ (d + 1) .unary operand) : ReadBack σ d .unary (.unary operator operand) := by
  intro fuel s us hs hfuel hstops
  rw [Expr.tokensAt_unary, List.cons_append] at hs hfuel
  have hkind : s.current.kind = .bang ∨ s.current.kind = .minus := by
    rw [hs.kind]
    exact hoperator
  refine Yields.resumes ?_ fun _ _ _ => rfl
  rw [readerAt_unary]
  refine .nested hd (.peek ?_)
  rw [if_pos hkind]
  refine .advance hs fun operator' t hoperator' ht => ?_
  obtain ⟨fuel, rfl⟩ := Nat.exists_eq_succ_of_ne_zero (n := fuel) (by simp at hfuel; omega)
  simp only [List.length_cons] at hfuel
  refine .bind (h.ends ht (by omega) hstops) fun operand' u hu => ?_
  refine .pure ⟨?_, hu.2⟩
  simp only [Expr.unlined, hoperator', hu.1]

end ReadBack

end

end Grammar

end Parlance
