import Parlance.Host.Local
import Parlance.Proofs.Arithmetic
import Parlance.Proofs.Decimal.Reading
import Parlance.Proofs.Printing.Spelling

namespace Parlance

namespace Lexer

theorem isPlain_of_isDigit {c : Char} (h : c.isDigit = true) : isPlain c := by
  refine ⟨?_, ?_, ?_, ?_, ?_⟩
  · rintro rfl
    cases h
  · rintro (rfl | rfl | rfl) <;> cases h
  all_goals
    rintro rfl
    cases h

-- Digits alone are one number.
theorem lexFrom_digits (line : Nat) {ds : List Char} (hne : ds ≠ [])
    (hds : ds.all Char.isDigit = true) :
    lexFrom line ds = [⟨.number, String.ofList ds, line⟩, ⟨.eof, "EOF", line⟩] := by
  cases ds with
  | nil => exact absurd rfl hne
  | cons c cs =>
    obtain ⟨hc, hcs⟩ := List.forall_mem_cons.mp (List.all_eq_true.mp hds)
    have hpiece : piece c cs = .single .number (c :: cs) [] := by
      have hnumber : number c (cs ++ []) = .single .number (c :: cs) [] :=
        number_of_digits c hcs fun _ h => by cases h
      rw [List.append_nil] at hnumber
      rw [piece_of_isPlain (isPlain_of_isDigit hc), if_pos (.inl hc), hnumber]
    rw [lexFrom_of_piece hpiece, lexFrom, Nat.add_zero]

-- A sign in front of digits is a token of its own.
theorem lexFrom_minus (line : Nat) {ds : List Char} (hds : ds.all Char.isDigit = true) :
    lexFrom line ('-' :: ds) = ⟨.minus, "-", line⟩ :: lexFrom line ds := by
  have hsymbol : symbol '-' ds = .single .minus ['-'] ds := by
    cases ds with
    | nil => rfl
    | cons d rest =>
      have hd : d ≠ '>' := by
        rintro rfl
        cases hds
      have hpair : TokenKind.ofPair? '-' d = none := by
        unfold TokenKind.ofPair?
        split
        · exact absurd rfl hd
        all_goals trivial
      rw [symbol, hpair]
      rfl
  have hpiece : piece '-' ds = .single .minus ['-'] ds := by
    rw [← hsymbol, piece_of_isPlain (by unfold isPlain; decide)]
    rfl
  rw [lexFrom_of_piece hpiece]
  rfl

end Lexer

-- A text is read as one expression, up to its end.
def Grammar.ReadsAs (source : String) (e : Expr) : Prop :=
  ∃ s, (readers (fuelFor (lex source)) 0).full (.start (lex source)) = .ok (e, s) ∧
    s.current.kind = .eof

theorem Grammar.ReadsAs.unique {source : String} {e e' : Expr} (h : ReadsAs source e)
    (h' : ReadsAs source e') : e = e' := by
  obtain ⟨s, hs, -⟩ := h
  obtain ⟨s', hs', -⟩ := h'
  rw [hs] at hs'
  cases hs'
  rfl

namespace Integer

-- The digits of an integer, without its sign.
def digits (n : Int64) : List Char :=
  Nat.toDigits 10 n.toInt.natAbs

-- The expression that is written out for an integer. A sign is an operator.
def written (n : Int64) : Expr :=
  let literal := Expr.constant ⟨.number, String.ofList (digits n), 1⟩
  if n.toInt < 0 then .unary ⟨.minus, "-", 1⟩ literal else literal

-- The value of that expression. The digits of the least integer are read before its sign, and
-- are out of the range of integers.
def readBack (n : Int64) : Value :=
  if n = Int64.minValue then .float (toFloat n) else .int n

theorem digits_all_isDigit (n : Int64) : (digits n).all Char.isDigit = true :=
  Decimal.toDigits_all_isDigit _

theorem lex_toString (n : Int64) :
    lex (toString n.toInt) =
      (if n.toInt < 0 then [⟨.minus, "-", 1⟩] else []) ++
        [⟨.number, String.ofList (digits n), 1⟩, ⟨.eof, "EOF", 1⟩] := by
  have hdigits := Lexer.lexFrom_digits 1 Nat.toDigits_ne_nil (digits_all_isDigit n)
  rw [lex, Decimal.toList_toString]
  split
  · exact (Lexer.lexFrom_minus 1 (digits_all_isDigit n)).trans (congrArg _ hdigits)
  · exact hdigits

theorem readsAs_written (n : Int64) : Grammar.ReadsAs (toString n.toInt) (written n) := by
  unfold Grammar.ReadsAs written
  rw [lex_toString]
  split
  · exact ⟨_, rfl, rfl⟩
  · exact ⟨_, rfl, rfl⟩

-- Digits are read without a sign, so those of the least integer are out of range.
theorem inRange_natAbs {n : Int64} (h : n ≠ Int64.minValue) : InRange n.toInt.natAbs := by
  have hn := inRange_toInt n
  have hne : n.toInt ≠ least := fun heq => h (Int64.toInt_inj.mp heq)
  simp only [InRange, least, greatest] at hn hne ⊢
  omega

theorem int?_digits {n : Int64} (h : n ≠ Int64.minValue) :
    Decimal.int? (String.ofList (digits n)) = some (Int64.ofInt n.toInt.natAbs) := by
  have hall := digits_all_isDigit n
  have hsome : (!(digits n).isEmpty && (digits n).all Char.isDigit) = true := by
    rw [hall, digits]
    simp [Nat.toDigits_ne_nil]
  simp only [Decimal.int?, String.toList_ofList, Decimal.splitSign_of_digits hall, hsome, if_true,
    Bool.false_eq_true, if_false]
  rw [digits, Decimal.ofDigits_toDigits, ofInt?_of_inRange (inRange_natAbs h)]

theorem numeral?_digits {n : Int64} (h : n ≠ Int64.minValue) :
    Builtin.numeral? (String.ofList (digits n)) = some (.int (Int64.ofInt n.toInt.natAbs)) := by
  rw [Builtin.numeral?, int?_digits h]
  rfl

theorem numeral?_digits_least :
    Builtin.numeral? (String.ofList (digits Int64.minValue)) =
      some (.float (-toFloat Int64.minValue)) := by
  have hint : Decimal.int? (String.ofList (digits Int64.minValue)) = none := by decide +kernel
  have hfloat : Decimal.float? (String.ofList (digits Int64.minValue)) =
      some (-toFloat Int64.minValue) := by decide +kernel
  rw [Builtin.numeral?, hint, hfloat]
  rfl

end Integer

section

variable {n env : Nat} {w : World} {token : Token} {e : Expr} {v v' : Value}

theorem evalExpr_literal (hkind : token.kind = .number)
    (hv : Builtin.numeral? token.lexeme = some v) :
    evalExpr (n + 1) env (.constant token) w = .ok v w := by
  have hconstant : Eval.constant token = .ok v := by
    unfold Eval.constant
    rw [hkind]
    simp only [hv]
  rw [Expr.evalExpr_succ, Eval.expr, hconstant]
  rfl

theorem evalExpr_minus (hop : token.kind = .minus) (he : evalExpr n env e w = .ok v w)
    (hv : v.negate = .ok v') : evalExpr (n + 1) env (.unary token e) w = .ok v' w := by
  have hunary : Eval.unary (evaluators n) env .minus e w = .ok v' w := by
    have hoperand : (evaluators n).expr env e w = .ok v w := he
    rw [Eval.unary, Exec.bind_apply, hoperand]
    show Exec.require v.negate w = _
    rw [hv]
    rfl
  rw [Expr.evalExpr_succ, Eval.expr, hop, Exec.atLine, hunary]

end

theorem Integer.evalExpr_written (n : Int64) {fuel : Nat} (hfuel : 2 ≤ fuel) (env : Nat)
    (w : World) : evalExpr fuel env (written n) w = .ok (readBack n) w := by
  obtain ⟨k, rfl⟩ : ∃ k, fuel = k + 2 := ⟨fuel - 2, by omega⟩
  unfold written readBack
  by_cases hleast : n = Int64.minValue
  · subst hleast
    have hnegate : (Value.float (-toFloat Int64.minValue)).negate =
        .ok (.float (toFloat Int64.minValue)) := by
      have hdouble : -(-toFloat Int64.minValue) = toFloat Int64.minValue := by decide +kernel
      rw [Value.negate, hdouble]
    exact evalExpr_minus rfl (evalExpr_literal rfl numeral?_digits_least) hnegate
  · have hliteral := numeral?_digits hleast
    rw [if_neg hleast]
    split
    · next hneg =>
      have hnegate : (Value.int (Int64.ofInt n.toInt.natAbs)).negate = .ok (.int n) := by
        rw [Value.negate, neg?, toInt_ofInt (inRange_natAbs hleast),
          show -(n.toInt.natAbs : Int) = n.toInt by omega, ofInt?_of_inRange (inRange_toInt n),
          Int64.ofInt_toInt]
        rfl
      exact evalExpr_minus rfl (evalExpr_literal rfl hliteral) hnegate
    · next hpos =>
      rw [show (n.toInt.natAbs : Int) = n.toInt by omega, Int64.ofInt_toInt] at hliteral
      exact evalExpr_literal rfl hliteral

-- The double that the least integer is read as is written with other digits.
theorem Integer.display_readBack (h : Heap) (n : Int64) :
    h.display (readBack n) = h.display (.int n) ↔ n ≠ Int64.minValue := by
  unfold readBack
  split
  · next hleast =>
    subst hleast
    have hdisplay : Decimal.display (toFloat Int64.minValue) ≠ toString Int64.minValue.toInt := by
      decide +kernel
    exact iff_of_false hdisplay fun hne => hne rfl
  · next hne => exact iff_of_true rfl hne

-- What is written out for an integer is read as an expression, the sign as an operator, whose
-- value is that integer again, unless it is the least one.
theorem printed_integers_read_back (h : Heap) (n : Int64) :
    Grammar.ReadsAs (h.display (.int n)) (Integer.written n) ∧
      (∀ fuel env w, 2 ≤ fuel →
        evalExpr fuel env (Integer.written n) w = .ok (Integer.readBack n) w) ∧
      (h.display (Integer.readBack n) = h.display (.int n) ↔ n ≠ Int64.minValue) :=
  ⟨Integer.readsAs_written n, fun _ env w hfuel => Integer.evalExpr_written n hfuel env w,
    Integer.display_readBack h n⟩

theorem least_integer_is_not_read_back :
    ¬ ∀ n : Int64, ∃ e, Grammar.ReadsAs (Heap.empty.display (.int n)) e ∧
      ∀ fuel env w, 2 ≤ fuel → evalExpr fuel env e w = .ok (.int n) w := by
  intro hall
  obtain ⟨e, hreads, heval⟩ := hall Int64.minValue
  have hwritten := hreads.unique (Integer.readsAs_written Int64.minValue)
  subst hwritten
  have w : World := .fresh (.captured "") ⟨false, .isolated⟩
  have hvalue := Integer.evalExpr_written Int64.minValue (Nat.le_refl 2) globals w
  rw [heval 2 globals w (Nat.le_refl 2)] at hvalue
  cases hvalue

end Parlance
