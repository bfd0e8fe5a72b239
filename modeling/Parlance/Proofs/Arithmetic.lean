import Parlance.Eval.Stmt
import Parlance.Fault.Message
import Parlance.Proofs.Integer

namespace Parlance

open Integer

-- An operation in unbounded integers. Remainders are those of a division that rounds down.
def combine (op : TokenKind) (a b : Int) : Int :=
  match op with
  | .plus => a + b
  | .minus => a - b
  | .star => a * b
  | _ => a.fmod b

-- Whether an operation on integers of 64 bits has a result. The least integer has no remainder
-- by -1, although it would be zero.
def HasResult (op : TokenKind) (a b : Int) : Prop :=
  InRange (combine op a b) ∧ (op = .percent → b ≠ 0 ∧ ¬ (a = least ∧ b = -1))

instance (op : TokenKind) (a b : Int) : Decidable (HasResult op a b) :=
  inferInstanceAs (Decidable (_ ∧ _))

-- Why an operation has no result.
def refusal (op : TokenKind) (b : Int) : RuntimeFault :=
  if op = .percent ∧ b = 0 then .moduloByZero else .overflow

theorem hasResult_iff {op : TokenKind} (hop : op ≠ .percent) {a b : Int} :
    HasResult op a b ↔ InRange (combine op a b) := by
  simp [HasResult, hop]

theorem refusal_of_ne {op : TokenKind} (hop : op ≠ .percent) (b : Int) :
    refusal op b = .overflow := by
  simp [refusal, hop]

theorem exactly_ofInt? (n : Int) :
    exactly (ofInt? n) = if InRange n then .ok (.int (Int64.ofInt n)) else refuse .overflow := by
  by_cases h : InRange n
  · rw [ofInt?_of_inRange h, if_pos h, exactly]
  · rw [ofInt?_of_not_inRange h, if_neg h, exactly]

theorem intArithmetic_percent (a b : Int64) :
    intArithmetic .percent a b =
      if HasResult .percent a.toInt b.toInt then
        .ok (.int (Int64.ofInt (combine .percent a.toInt b.toInt)))
      else refuse (refusal .percent b.toInt) := by
  have hzero : b = 0 ↔ b.toInt = 0 := by rw [← Int64.toInt_inj, Int64.toInt_zero]
  unfold intArithmetic
  by_cases hb : b.toInt = 0
  · simp [hzero, hb, HasResult, refusal]
  · have hrange := inRange_fmod a.toInt hb
    simp only [hzero, hb, if_false, mod?_eq a hb]
    by_cases hlast : a.toInt = least ∧ b.toInt = -1
    · simp [hlast, HasResult, refusal, exactly]
    · simp [hlast, hb, hrange, HasResult, combine, exactly]

-- Integers are computed with exactly, or not at all.
theorem intArithmetic_eq {op : TokenKind} (hop : op ∈ [.plus, .minus, .star, .percent])
    (a b : Int64) :
    intArithmetic op a b =
      if HasResult op a.toInt b.toInt then
        .ok (.int (Int64.ofInt (combine op a.toInt b.toInt)))
      else refuse (refusal op b.toInt) := by
  by_cases hpercent : op = .percent
  · subst hpercent
    exact intArithmetic_percent a b
  · have hexactly : intArithmetic op a b = exactly (ofInt? (combine op a.toInt b.toInt)) := by
      simp only [List.mem_cons, List.not_mem_nil, or_false] at hop
      rcases hop with rfl | rfl | rfl | rfl
      · rfl
      · rfl
      · rfl
      · exact absurd rfl hpercent
    simp only [hasResult_iff hpercent, refusal_of_ne hpercent, hexactly]
    exact exactly_ofInt? _

-- A text of digits for an integer of 64 bits.
def IsNumeral (lexeme : String) : Prop :=
  lexeme.toList ≠ [] ∧ (∀ c ∈ lexeme.toList, c.isDigit = true) ∧
    (Decimal.ofDigits lexeme.toList : Int) ≤ greatest

theorem splitSign_of_digits {cs : List Char} (h : ∀ c ∈ cs, c.isDigit = true) :
    Decimal.splitSign cs = (false, cs) := by
  unfold Decimal.splitSign
  split
  · exact absurd (h '-' List.mem_cons_self) (by decide)
  · exact absurd (h '+' List.mem_cons_self) (by decide)
  · rfl

theorem IsNumeral.inRange {lexeme : String} (h : IsNumeral lexeme) :
    InRange (Decimal.ofDigits lexeme.toList) := by
  have hle := h.2.2
  unfold InRange least greatest at *
  omega

theorem IsNumeral.numeral? {lexeme : String} (h : IsNumeral lexeme) :
    Builtin.numeral? lexeme = some (.int (Int64.ofInt (Decimal.ofDigits lexeme.toList))) := by
  have hdigits : lexeme.toList.all Char.isDigit = true := List.all_eq_true.mpr h.2.1
  have hint : Decimal.int? lexeme = some (Int64.ofInt (Decimal.ofDigits lexeme.toList)) := by
    simp [Decimal.int?, splitSign_of_digits h.2.1, h.1, hdigits, ofInt?_of_inRange h.inRange]
  rw [Builtin.numeral?, hint]
  rfl

namespace Expr

-- Expressions of numerals, minus signs, and operators that do not lead out of the integers.
inductive Integral : Expr → Prop
  | numeral {token : Token} (hkind : token.kind = .number) (hlexeme : IsNumeral token.lexeme) :
      Integral (.constant token)
  | negation {op : Token} {operand : Expr} (hop : op.kind = .minus) (h : Integral operand) :
      Integral (.unary op operand)
  | operation {op : Token} {left right : Expr}
      (hop : op.kind ∈ [.plus, .minus, .star, .percent]) (hleft : Integral left)
      (hright : Integral right) : Integral (.arithmetic op left right)

-- The value of such an expression in unbounded integers.
def integer : Expr → Int
  | constant token => Decimal.ofDigits token.lexeme.toList
  | unary _ operand => -operand.integer
  | arithmetic op left right => combine op.kind left.integer right.integer
  | _ => 0

-- The depth to which operations are nested.
def height : Expr → Nat
  | unary _ operand => operand.height + 1
  | arithmetic _ left right => max left.height right.height + 1
  | _ => 1

-- What is evaluated for such an expression, in the order in which the values are found.
def inOrder : Expr → List Expr
  | unary op operand => operand.inOrder ++ [unary op operand]
  | arithmetic op left right => left.inOrder ++ right.inOrder ++ [arithmetic op left right]
  | e => [e]

-- Whether there is a value, given that the operands have theirs.
def Defined : Expr → Prop
  | arithmetic op left right => HasResult op.kind left.integer right.integer
  | e => InRange e.integer

instance (e : Expr) : Decidable e.Defined := by
  unfold Defined
  split <;> infer_instance

-- Why there is none.
def failure : Expr → RuntimeFault
  | arithmetic op _ right => refusal op.kind right.integer
  | _ => .overflow

theorem Defined.inRange {e : Expr} (h : e.Defined) : InRange e.integer := by
  cases e with
  | arithmetic op left right => exact h.1
  | _ => exact h

theorem mem_inOrder_self (e : Expr) : e ∈ e.inOrder := by
  cases e <;> simp [inOrder]

-- What carrying out operations one after another comes to: the first that has no value ends it.
def settle : List Expr → Except Stop Unit
  | [] => .ok ()
  | e :: es => if e.Defined then settle es else .error (.fault (.runtimeAt e.failure e.line))

theorem settle_append (xs ys : List Expr) :
    settle (xs ++ ys) = settle xs >>= fun _ => settle ys := by
  induction xs with
  | nil => rfl
  | cons x xs ih =>
    simp only [List.cons_append, settle, ih]
    split <;> rfl

theorem settle_eq_ok_iff {es : List Expr} : settle es = .ok () ↔ ∀ x ∈ es, x.Defined := by
  induction es with
  | nil => simp [settle]
  | cons e es ih =>
    by_cases he : e.Defined
    · simp [settle, he, ih]
    · simp [settle, he]

-- The first operation without a value is the one that is reported.
theorem settle_eq_error {es : List Expr} {s : Stop} (h : settle es = .error s) :
    ∃ before x after, es = before ++ x :: after ∧ (∀ y ∈ before, y.Defined) ∧ ¬ x.Defined ∧
      s = .fault (.runtimeAt x.failure x.line) := by
  induction es with
  | nil => cases h
  | cons e es ih =>
    rw [settle] at h
    split at h
    · next he =>
      obtain ⟨before, x, after, rfl, hbefore, hx, rfl⟩ := ih h
      exact ⟨e :: before, x, after, rfl, List.forall_mem_cons.mpr ⟨he, hbefore⟩, hx, rfl⟩
    · next he =>
      cases h
      exact ⟨[], e, es, rfl, fun y hy => absurd hy List.not_mem_nil, he, rfl⟩

-- How the evaluation of an expression ends: with the exact value if all of it has one.
def verdict (e : Expr) : Except Stop Value :=
  settle e.inOrder >>= fun _ => .ok (.int (Int64.ofInt e.integer))

-- The last operation of an expression, after all others.
theorem verdict_eq {e : Expr} {es : List Expr} (horder : e.inOrder = es ++ [e]) :
    e.verdict = settle es >>= fun _ =>
      if e.Defined then .ok (.int (Int64.ofInt e.integer))
      else .error (.fault (.runtimeAt e.failure e.line)) := by
  rw [verdict, horder, settle_append]
  cases settle es with
  | error s => rfl
  | ok u =>
    by_cases he : e.Defined
    · simp only [settle, he, if_true]
      rfl
    · simp only [settle, he, if_false]
      rfl

open Exec

variable {e : Expr} {es : List Expr}

-- An operation that comes after its operands have been settled. The failure of an operand has
-- a line already.
theorem atLine_settle (horder : e.inOrder = es ++ [e]) {x : Exec Value}
    (hx : (∀ y ∈ es, y.Defined) → x = require
      (if e.Defined then .ok (.int (Int64.ofInt e.integer)) else refuse e.failure)) :
    atLine e.line (require (settle es) >>= fun _ => x) = require e.verdict := by
  rw [verdict_eq horder]
  cases hes : settle es with
  | error s =>
    obtain ⟨_, x, _, -, -, -, rfl⟩ := settle_eq_error hes
    rfl
  | ok u =>
    have hvalue := hx (settle_eq_ok_iff.mp hes)
    subst hvalue
    split <;> rfl

theorem require_verdict_bind (e : Expr) (f : Value → Exec Value) :
    (require e.verdict >>= f) =
      require (settle e.inOrder) >>= fun _ => f (.int (Int64.ofInt e.integer)) := by
  rw [verdict]
  cases settle e.inOrder <;> rfl

theorem require_settle_append (xs ys : List Expr) (f : Unit → Exec Value) :
    (require (settle (xs ++ ys)) >>= f) =
      require (settle xs) >>= fun _ => require (settle ys) >>= f := by
  rw [settle_append]
  cases settle xs <;> rfl

-- The value of an operand that has one.
theorem toInt_of_settled (h : ∀ x ∈ e.inOrder, x.Defined) :
    (Int64.ofInt e.integer).toInt = e.integer :=
  toInt_ofInt (h e (mem_inOrder_self e)).inRange

theorem constant_eq {token : Token} (hkind : token.kind = .number)
    (hlexeme : IsNumeral token.lexeme) :
    Eval.constant token = .ok (.int (Int64.ofInt (constant token).integer)) := by
  simp only [Eval.constant, hkind, hlexeme.numeral?]
  rfl

theorem negate_eq {op : Token} {operand : Expr} (h : ∀ x ∈ operand.inOrder, x.Defined) :
    (Value.int (Int64.ofInt operand.integer)).negate =
      if (unary op operand).Defined then .ok (.int (Int64.ofInt (unary op operand).integer))
      else refuse (unary op operand).failure := by
  rw [Value.negate, neg?, toInt_of_settled h]
  exact exactly_ofInt? (-operand.integer)

theorem place_arithmetic_eq {op : Token} {left right : Expr}
    (hop : op.kind ∈ [.plus, .minus, .star, .percent])
    (hleft : ∀ x ∈ left.inOrder, x.Defined) (hright : ∀ x ∈ right.inOrder, x.Defined) :
    (reading (fun h => h.arithmetic op.kind (.int (Int64.ofInt left.integer))
        (.int (Int64.ofInt right.integer))) >>= place) =
      require
        (if (arithmetic op left right).Defined then
          .ok (.int (Int64.ofInt (arithmetic op left right).integer))
        else refuse (arithmetic op left right).failure) := by
  simp only [Heap.arithmetic, intArithmetic_eq hop, toInt_of_settled hleft, toInt_of_settled hright]
  by_cases h : HasResult op.kind left.integer right.integer
  · have hdefined : (arithmetic op left right).Defined := h
    simp only [h, hdefined, if_true]
    rfl
  · have hundefined : ¬ (arithmetic op left right).Defined := h
    simp only [h, hundefined, if_false]
    rfl

theorem evalExpr_succ (n env : Nat) (e : Expr) :
    evalExpr (n + 1) env e = atLine e.line (Eval.expr (evaluators n) env e) := by
  rw [evalExpr, evaluators]

-- One step of an evaluation. What an expression consists of has been evaluated already.
theorem evalExpr_numeral {token : Token} (hkind : token.kind = .number)
    (hlexeme : IsNumeral token.lexeme) (n env : Nat) :
    evalExpr (n + 1) env (constant token) = require (constant token).verdict := by
  have hdefined : (constant token).Defined := hlexeme.inRange
  rw [evalExpr_succ, Eval.expr, constant_eq hkind hlexeme, @verdict_eq (constant token) [] rfl]
  simp only [hdefined, if_true]
  rfl

theorem evalExpr_negation {op : Token} {operand : Expr} (hop : op.kind = .minus) {n env : Nat}
    (h : evalExpr n env operand = require operand.verdict) :
    evalExpr (n + 1) env (unary op operand) = require (unary op operand).verdict := by
  have hstep : Eval.expr (evaluators n) env (unary op operand) =
      require operand.verdict >>= fun v => require v.negate := by
    rw [Eval.expr, Eval.unary, hop, ← h]
    rfl
  rw [evalExpr_succ, hstep, require_verdict_bind]
  refine atLine_settle rfl fun hoperand => ?_
  rw [negate_eq hoperand]

theorem evalExpr_operation {op : Token} {left right : Expr}
    (hop : op.kind ∈ [.plus, .minus, .star, .percent]) {n env : Nat}
    (hleft : evalExpr n env left = require left.verdict)
    (hright : evalExpr n env right = require right.verdict) :
    evalExpr (n + 1) env (arithmetic op left right) =
      require (arithmetic op left right).verdict := by
  have hstep : Eval.expr (evaluators n) env (arithmetic op left right) =
      require left.verdict >>= fun l => require right.verdict >>= fun r =>
        reading (fun h => h.arithmetic op.kind l r) >>= place := by
    rw [Eval.expr, Eval.arithmetic, ← hleft, ← hright]
    rfl
  rw [evalExpr_succ, hstep, require_verdict_bind]
  simp only [require_verdict_bind]
  rw [← require_settle_append]
  refine atLine_settle rfl fun hoperands => ?_
  obtain ⟨hl, hr⟩ := List.forall_mem_append.mp hoperands
  exact place_arithmetic_eq hop hl hr

-- An evaluation with enough fuel for the height of an expression, by induction on the expression.
theorem evalExpr_eq_verdict (he : e.Integral) {fuel : Nat} (hfuel : e.height ≤ fuel) (env : Nat) :
    evalExpr fuel env e = require e.verdict := by
  induction he generalizing fuel with
  | numeral hkind hlexeme =>
    cases fuel with
    | zero => simp [height] at hfuel
    | succ n => exact evalExpr_numeral hkind hlexeme n env
  | negation hop _ ih =>
    cases fuel with
    | zero => simp [height] at hfuel
    | succ n =>
      simp only [height] at hfuel
      exact evalExpr_negation hop (ih (by omega))
  | operation hop _ _ ihleft ihright =>
    cases fuel with
    | zero => simp [height] at hfuel
    | succ n =>
      simp only [height] at hfuel
      exact evalExpr_operation hop (ihleft (by omega)) (ihright (by omega))

end Expr

-- Arithmetic of integers is exact or refused: an expression has its value in unbounded integers
-- if all of its parts have theirs, and stops at the first part that has none.
theorem integer_arithmetic_is_exact {e : Expr} (he : e.Integral) {fuel : Nat}
    (hfuel : e.height ≤ fuel) (env : Nat) (w : World) :
    (∀ n t, evalExpr fuel env e w = .ok (.int n) t ↔
      (∀ x ∈ e.inOrder, x.Defined) ∧ n.toInt = e.integer ∧ t = w) ∧
    ((¬ ∀ x ∈ e.inOrder, x.Defined) →
      ∃ before x after, e.inOrder = before ++ x :: after ∧ (∀ y ∈ before, y.Defined) ∧
        ¬ x.Defined ∧ evalExpr fuel env e w = .error (.fault (.runtimeAt x.failure x.line)) w) ∧
    RuntimeFault.message .moduloByZero = "modulo by zero" ∧
    RuntimeFault.message .overflow = "integer overflow" ∧
    ∀ a b : Int, b ≠ 0 →
      (combine .percent a b = 0 ∨ (0 < combine .percent a b ↔ 0 < b)) ∧
        (combine .percent a b).natAbs < b.natAbs ∧ b ∣ a - combine .percent a b := by
  rw [Expr.evalExpr_eq_verdict he hfuel env, Expr.verdict]
  refine ⟨?_, ?_, rfl, rfl, fun a b hb => fmod_bounds a hb⟩
  · intro n t
    constructor
    · intro h
      cases hsettle : Expr.settle e.inOrder with
      | ok u =>
        have hall := Expr.settle_eq_ok_iff.mp hsettle
        rw [hsettle] at h
        cases h
        exact ⟨hall, Expr.toInt_of_settled hall, rfl⟩
      | error s =>
        rw [hsettle] at h
        cases h
    · rintro ⟨hall, hn, rfl⟩
      rw [Expr.settle_eq_ok_iff.mpr hall, ← hn, Int64.ofInt_toInt]
      rfl
  · intro hnot
    cases hsettle : Expr.settle e.inOrder with
    | ok u => exact absurd (Expr.settle_eq_ok_iff.mp hsettle) hnot
    | error s =>
      obtain ⟨before, x, after, horder, hbefore, hx, rfl⟩ := Expr.settle_eq_error hsettle
      exact ⟨before, x, after, horder, hbefore, hx, rfl⟩

-- The remainder of the least integer by -1 on the second line, and one by zero on the third.
def leastByMinusOne : Expr :=
  .arithmetic ⟨.plus, "+", 3⟩
    (.arithmetic ⟨.percent, "%", 2⟩
      (.arithmetic ⟨.minus, "-", 1⟩
        (.unary ⟨.minus, "-", 1⟩ (.constant ⟨.number, "9223372036854775807", 1⟩))
        (.constant ⟨.number, "1", 1⟩))
      (.unary ⟨.minus, "-", 2⟩ (.constant ⟨.number, "1", 2⟩)))
    (.arithmetic ⟨.percent, "%", 3⟩ (.constant ⟨.number, "7", 3⟩) (.constant ⟨.number, "0", 3⟩))

theorem leastByMinusOne_integral : leastByMinusOne.Integral := by
  refine .operation (by decide) (.operation (by decide) (.operation (by decide)
    (.negation rfl (.numeral rfl ?_)) (.numeral rfl ?_)) (.negation rfl (.numeral rfl ?_)))
    (.operation (by decide) (.numeral rfl ?_) (.numeral rfl ?_))
  all_goals exact ⟨by decide, List.all_eq_true.mp (by decide), by decide⟩

-- The remainder on the second line is the first operation that has no value.
theorem leastByMinusOne_is_refused :
    leastByMinusOne.Integral ∧ leastByMinusOne.height ≤ 5 ∧
      ∀ env w, evalExpr 5 env leastByMinusOne w =
        .error (.fault (.runtimeAt .overflow 2)) w := by
  refine ⟨leastByMinusOne_integral, by decide, fun env w => ?_⟩
  obtain ⟨-, hfirst, -⟩ := integer_arithmetic_is_exact leastByMinusOne_integral
    (by decide : leastByMinusOne.height ≤ 5) env w
  obtain ⟨before, x, after, horder, hbefore, hx, hrun⟩ := hfirst (by decide)
  have hnone : before.find? (fun y => decide (¬ y.Defined)) = none :=
    List.find?_eq_none.mpr fun y hy => by simp [hbefore y hy]
  have hfind : leastByMinusOne.inOrder.find? (fun y => decide (¬ y.Defined)) = some x := by
    rw [horder, List.find?_append, hnone, List.find?_cons_of_pos (by simpa using hx)]
    rfl
  have hsecond : (leastByMinusOne.inOrder.find? fun y => decide (¬ y.Defined)).map
      (fun y => (y.failure, y.line)) = some (.overflow, 2) := by decide
  rw [hfind] at hsecond
  simp only [Option.map_some, Option.some.injEq, Prod.mk.injEq] at hsecond
  rw [hrun, hsecond.1, hsecond.2]

end Parlance
