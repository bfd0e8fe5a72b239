import Parlance.Host.Local
import Parlance.Proofs.Accepted
import Parlance.Proofs.Contract
import Parlance.Proofs.Grammar.Formed

namespace Parlance

namespace Exec

variable {α β : Type} {w t : World}

theorem bind_eq_ok_iff {x : Exec α} {f : α → Exec β} {b : β} :
    (x >>= f) w = .ok b t ↔ ∃ a u, x w = .ok a u ∧ f a u = .ok b t := by
  rw [bind_apply]
  cases hx : x w with
  | ok a u =>
    constructor
    · intro h
      exact ⟨a, u, rfl, h⟩
    · rintro ⟨_, _, ⟨⟩, h⟩
      exact h
  | error s u => simp

theorem atLine_eq_ok_iff {line : Nat} {x : Exec α} {a : α} :
    atLine line x w = .ok a t ↔ x w = .ok a t := by
  unfold atLine
  cases hx : x w with
  | ok b u => simp
  | error s u => cases s <;> simp

theorem reading_eq_ok_iff {f : Heap → Except Stop α} {a : α} :
    reading f w = .ok a t ↔ f w.heap = .ok a ∧ w = t := by
  unfold reading
  cases hf : f w.heap with
  | ok b => simp
  | error s => simp

theorem require_eq_ok_iff {x : Except Stop α} {a : α} :
    require x w = .ok a t ↔ x = .ok a ∧ w = t :=
  reading_eq_ok_iff

end Exec

-- The type that a new value will have.
def Draft.ty : Draft → Ty
  | .value v => v.ty
  | .list _ => .list
  | .dict _ => .dict

theorem Exec.ty_of_place {d : Draft} {v : Value} {w t : World} (h : place d w = .ok v t) :
    v.ty = d.ty := by
  cases d with
  | value u =>
    cases h
    rfl
  | list items =>
    cases h
    rfl
  | dict entries =>
    cases h
    rfl

-- The types of the operands and of the result of an arithmetic operator.
inductive Arithmetic : TokenKind → Ty → Ty → Ty → Prop
  | numbers (op) : Arithmetic op .number .number .number
  | joins {ty} (h : ty = .string ∨ ty = .list) : Arithmetic .plus ty ty ty
  | repeats {ty} (h : ty = .string ∨ ty = .list) : Arithmetic .star ty .number ty
  | repeated {ty} (h : ty = .string ∨ ty = .list) : Arithmetic .star .number ty ty

theorem exactly_ty {n : Option Int64} {v : Value} (h : exactly n = .ok v) : v.ty = .number := by
  cases n with
  | none => cases h
  | some n =>
    cases h
    rfl

theorem intArithmetic_ty {op : TokenKind} {a b : Int64} {v : Value}
    (h : intArithmetic op a b = .ok v) : v.ty = .number := by
  unfold intArithmetic at h
  split at h
  · exact exactly_ty h
  · exact exactly_ty h
  · exact exactly_ty h
  · split at h <;> cases h
    rfl
  · split at h
    · cases h
    · exact exactly_ty h
  · cases h

theorem floatArithmetic_ty {op : TokenKind} {a b : Float} {v : Value}
    (h : floatArithmetic op a b = .ok v) : v.ty = .number := by
  unfold floatArithmetic at h
  split at h
  · cases h
    rfl
  · cases h
    rfl
  · cases h
    rfl
  · split at h <;> cases h
    rfl
  · split at h <;> cases h
    rfl
  · cases h

theorem repeatText_ty {s : String} {times : Nat} {d : Draft} (h : repeatText s times = .ok d) :
    d.ty = .string := by
  unfold repeatText at h
  split at h
  · cases h
  · split at h <;> cases h <;> rfl

theorem repeatItems_ty {items : Array Value} {times : Nat} {d : Draft}
    (h : repeatItems items times = .ok d) : d.ty = .list := by
  unfold repeatItems at h
  split at h
  · cases h
  · split at h <;> cases h <;> rfl

theorem ty_of_map_value {x : Except Stop Value} {d : Draft} (h : Draft.value <$> x = .ok d)
    (hx : ∀ v, x = .ok v → v.ty = .number) : d.ty = .number := by
  cases x with
  | error s => cases h
  | ok v =>
    cases h
    exact hx v rfl

theorem Heap.arithmetic_ty {h : Heap} {op : TokenKind} {a b : Value} {d : Draft}
    (hd : h.arithmetic op a b = .ok d) : Arithmetic op a.ty b.ty d.ty := by
  unfold arithmetic at hd
  split at hd
  · rw [ty_of_map_value hd fun _ => intArithmetic_ty]
    exact .numbers op
  · rw [ty_of_map_value hd fun _ => floatArithmetic_ty]
    exact .numbers op
  · rw [ty_of_map_value hd fun _ => floatArithmetic_ty]
    exact .numbers op
  · rw [ty_of_map_value hd fun _ => floatArithmetic_ty]
    exact .numbers op
  · split at hd
    · cases hd
      exact .joins (.inl rfl)
    · cases hd
      exact .joins (.inr rfl)
    · rw [repeatText_ty hd]
      exact .repeats (.inl rfl)
    · rw [repeatItems_ty hd]
      exact .repeats (.inr rfl)
    · rw [repeatText_ty hd]
      exact .repeated (.inl rfl)
    · rw [repeatItems_ty hd]
      exact .repeated (.inr rfl)
    · cases hd

theorem ty_of_bind_bool {α : Type} {x : Except Stop α} {f : α → Bool} {v : Value}
    (h : (do return .bool (f (← x))) = (.ok v : Except Stop Value)) : v.ty = .bool := by
  obtain ⟨a, _, hv⟩ := bind_eq_ok.mp h
  cases hv
  rfl

theorem Heap.relational_ty {h : Heap} {op : TokenKind} {a b v : Value}
    (hv : h.relational op a b = .ok v) : v.ty = .bool := by
  unfold relational at hv
  split at hv
  · exact ty_of_bind_bool hv
  · exact ty_of_bind_bool hv
  · exact ty_of_bind_bool hv
  · exact ty_of_bind_bool hv
  · exact ty_of_bind_bool hv
  · exact ty_of_bind_bool hv
  · cases hv

theorem Value.negate_ty {u v : Value} (h : u.negate = .ok v) : u.ty = .number ∧ v.ty = .number := by
  cases u with
  | int n => exact ⟨rfl, exactly_ty h⟩
  | float x =>
    cases h
    exact ⟨rfl, rfl⟩
  | _ => cases h

theorem Eval.constant_ty {token : Token} {v : Value} (h : constant token = .ok v) :
    v.ty = (Expr.constant token).ty := by
  unfold constant at h
  split at h
  · next hkind =>
    simp only [Expr.ty, hkind]
    split at h
    · next u hu =>
      cases h
      unfold Builtin.numeral? at hu
      cases hint : Decimal.int? token.lexeme with
      | some n =>
        rw [hint] at hu
        cases hu
        rfl
      | none =>
        rw [hint] at hu
        obtain ⟨x, _, rfl⟩ := Option.map_eq_some_iff.mp hu
        rfl
    · cases h
  · next hkind =>
    cases h
    simp only [Expr.ty, hkind]
    rfl
  · cases h
    simp only [Expr.ty]
    rfl

namespace Expr

-- Literals, and operators on operands.
def isOperation : Expr → Bool
  | constant _ => true
  | logical _ _ _ => true
  | relational _ _ _ => true
  | arithmetic _ _ _ => true
  | unary _ _ => true
  | array _ _ => true
  | dict _ _ => true
  | _ => false

-- Expressions in which there is nothing but literals and operators.
def Closed (e : Expr) : Prop :=
  ∀ x ∈ e.parts, x.isOperation = true

instance (e : Expr) : Decidable e.Closed :=
  inferInstanceAs (Decidable (∀ x ∈ _, _ = true))

theorem Closed.child {e x : Expr} (h : e.Closed) (hx : x ∈ e.children) : x.Closed :=
  fun t ht => h t (parts_subset hx t ht)

-- A list that is repeated where it is written, and all arithmetic with it. The list is not
-- looked at, so that the product has the type of the other factor.
def isMistyped : Expr → Bool
  | arithmetic op left right =>
    op.kind == .star && (Typing.isUnchecked left || Typing.isUnchecked right) ||
      (left.isMistyped || right.isMistyped)
  | _ => false

-- How the static type of a closed expression relates to the type of its value.
def Fits (e : Expr) (static found : Ty) : Prop :=
  if e.isMistyped then static = .number ∧ found = .list else static = found

theorem fits_of_not_mistyped {e : Expr} {static found : Ty} (he : e.isMistyped = false) :
    e.Fits static found ↔ static = found := by
  simp [Fits, he]

theorem Fits.eq_of_ne_list {e : Expr} {static found : Ty} (h : e.Fits static found)
    (hfound : found ≠ .list) : e.isMistyped = false ∧ static = found := by
  unfold Fits at h
  cases hmistyped : e.isMistyped with
  | true =>
    rw [hmistyped, if_pos rfl] at h
    exact absurd h.2 hfound
  | false =>
    rw [hmistyped] at h
    exact ⟨rfl, h⟩

theorem isMistyped_of_isUnchecked {e : Expr} (h : Typing.isUnchecked e = true) :
    e.isMistyped = false := by
  cases e with
  | arithmetic op left right => cases h
  | _ => rfl

end Expr

namespace Typing

open Parlance.Expr

-- What an operator on operands of the given types is typed as.
theorem arithmeticType_eq_ok {op : Token} {left right : Expr} {l r static : Ty}
    (h : arithmeticType op left right l r = .ok static) :
    static =
      if isUnchecked left then r
      else if isUnchecked right then l
      else if op.kind = .star ∧ l = .number then r
      else l := by
  unfold arithmeticType at h
  split at h
  · next hleft =>
    cases h
    rw [if_pos hleft]
  · next hleft =>
    split at h
    · next hright =>
      cases h
      rw [if_neg hleft, if_pos hright]
    · next hright =>
      obtain ⟨_, _, h⟩ := bind_eq_ok.mp h
      cases h
      rw [if_neg hleft, if_neg hright]

-- Operands that are both looked at have types that go together.
theorem operandsAllowed_of_arithmeticType {op : Token} {left right : Expr} {l r static : Ty}
    (hleft : isUnchecked left = false) (hright : isUnchecked right = false)
    (h : arithmeticType op left right l r = .ok static) :
    operandsAllowed op.kind l r = true := by
  unfold arithmeticType at h
  rw [hleft, hright] at h
  obtain ⟨_, hrequire, _⟩ := bind_eq_ok.mp h
  exact of_require hrequire

-- An operand that is not looked at is a list.
def Seen (e : Expr) (found : Ty) : Prop :=
  isUnchecked e = true → found = .list

theorem Seen.isUnchecked {e : Expr} {found : Ty} (h : Seen e found) (hfound : found ≠ .list) :
    isUnchecked e = false := by
  cases hunchecked : Typing.isUnchecked e with
  | true => exact absurd (h hunchecked) hfound
  | false => rfl

section

variable {op : Token} {left right : Expr} {l r a b static found : Ty} (hl : left.Fits l a)
  (hr : right.Fits r b) (ha : Seen left a) (hb : Seen right b)
  (h : arithmeticType op left right l r = .ok static)

include hl hr ha hb h

-- Operands that are no lists are looked at, and have the types that they are given.
theorem fits_of_not_lists (hleft : a ≠ .list) (hright : b ≠ .list)
    (hfound : found = if op.kind = .star ∧ a = .number then b else a) :
    (Expr.arithmetic op left right).Fits static found := by
  obtain ⟨hmistyped, rfl⟩ := hl.eq_of_ne_list hleft
  obtain ⟨hmistyped', rfl⟩ := hr.eq_of_ne_list hright
  have hstatic := arithmeticType_eq_ok h
  rw [ha.isUnchecked hleft, hb.isUnchecked hright] at hstatic
  have hself : (Expr.arithmetic op left right).isMistyped = false := by
    simp [isMistyped, hmistyped, hmistyped', ha.isUnchecked hleft, hb.isUnchecked hright]
  rw [fits_of_not_mistyped hself, hstatic, hfound]
  rfl

-- Two lists that are joined. If both are looked at, they have one static type, so that both are
-- mistyped or neither is.
theorem fits_of_joined_lists (hop : op.kind = .plus) (hleft : a = .list) (hright : b = .list) :
    (Expr.arithmetic op left right).Fits static .list := by
  subst hleft hright
  have hstatic := arithmeticType_eq_ok h
  have hself : (Expr.arithmetic op left right).isMistyped =
      (left.isMistyped || right.isMistyped) := by
    simp [isMistyped, hop]
  by_cases huleft : isUnchecked left = true
  · have hmistyped := isMistyped_of_isUnchecked huleft
    simp_all [Fits]
  · by_cases huright : isUnchecked right = true
    · have hmistyped := isMistyped_of_isUnchecked huright
      simp_all [Fits]
    · have hallowed := operandsAllowed_of_arithmeticType (by simpa using huleft)
        (by simpa using huright) h
      have hsame : l = r := by simpa [hop, operandsAllowed] using hallowed
      subst hsame
      unfold Fits at hl hr ⊢
      cases hmistyped : left.isMistyped <;> cases hmistyped' : right.isMistyped <;> simp_all

-- A list that is repeated, on the left or on the right. A list literal is not looked at, and the
-- product is taken for a number.
theorem fits_of_repeated_list (hop : op.kind = .star)
    (hlist : a = .list ∧ b = .number ∨ a = .number ∧ b = .list) :
    (Expr.arithmetic op left right).Fits static .list := by
  have hstatic := arithmeticType_eq_ok h
  rcases hlist with ⟨rfl, rfl⟩ | ⟨rfl, rfl⟩
  · obtain ⟨hmistyped, rfl⟩ := hr.eq_of_ne_list (by decide)
    have huright := hb.isUnchecked (by decide)
    unfold Fits at hl ⊢
    by_cases huleft : isUnchecked left = true
    · simp_all [isMistyped]
    · by_cases hmistyped' : left.isMistyped = true
      · simp_all [isMistyped]
      · simp_all [isMistyped]
  · obtain ⟨hmistyped, rfl⟩ := hl.eq_of_ne_list (by decide)
    have huleft := ha.isUnchecked (by decide)
    unfold Fits at hr ⊢
    by_cases huright : isUnchecked right = true
    · simp_all [isMistyped]
    · by_cases hmistyped' : right.isMistyped = true
      · simp_all [isMistyped]
      · simp_all [isMistyped]

-- The static types of the operands decide the one of the result. It is wrong only where one of
-- theirs is, or where a list literal is a factor.
theorem arithmeticType_fits (harithmetic : Arithmetic op.kind a b found) :
    (Expr.arithmetic op left right).Fits static found := by
  generalize hop : op.kind = kind at harithmetic
  cases harithmetic with
  | numbers => exact fits_of_not_lists hl hr ha hb h (by decide) (by decide) (by simp)
  | joins hty =>
    rcases hty with rfl | rfl
    · exact fits_of_not_lists hl hr ha hb h (by decide) (by decide) (by simp)
    · exact fits_of_joined_lists hl hr ha hb h hop rfl rfl
  | repeats hty =>
    rcases hty with rfl | rfl
    · exact fits_of_not_lists hl hr ha hb h (by decide) (by decide) (by simp)
    · exact fits_of_repeated_list hl hr ha hb h hop (.inl ⟨rfl, rfl⟩)
  | repeated hty =>
    rcases hty with rfl | rfl
    · exact fits_of_not_lists hl hr ha hb h (by decide) (by decide) (by simp [hop])
    · exact fits_of_repeated_list hl hr ha hb h hop (.inr ⟨rfl, rfl⟩)

end

theorem unaryType_eq_ok {op : Token} {operand : Expr} {found static : Ty}
    (h : unaryType op operand found = .ok static) :
    static = if op.kind = .minus then .number else .bool := by
  unfold unaryType at h
  split at h
  next hcase =>
  split at hcase
  all_goals
    cases hcase
    obtain ⟨_, _, h⟩ := bind_eq_ok.mp h
    cases h
    simp_all

end Typing

section

open Eval Exec Typing

variable {ev : Evaluators} {env : Nat} {w t : World} {v : Value} {fs : Functions} {static : Ty}

-- What an evaluation makes of an expression is what the type of the expression promises.
def Agreeing (ev : Evaluators) (env : Nat) (fs : Functions) (e : Expr) : Prop :=
  ∀ w v t static, exprType fs e = .ok static → ev.expr env e w = .ok v t →
    e.Fits static v.ty ∧ Seen e v.ty

theorem Agreeing.of_logicalOperand {op : Token} {e : Expr} (h : Agreeing ev env fs e)
    (he : e.isOperation = true) {found : Ty} (hfound : exprType fs e = .ok found) {u : Unit}
    (hoperand : logicalOperand op e found = .ok u) (hv : ev.expr env e w = .ok v t) :
    v.ty = .bool := by
  have helement : e.isElement = false := by
    cases e with
    | access | slice => cases he
    | _ => rfl
  have hbool : found = .bool := by simpa [helement] using of_require hoperand
  obtain ⟨hfits, -⟩ := h w v t found hfound hv
  unfold Expr.Fits at hfits
  split at hfits
  · rw [hfits.1] at hbool
    cases hbool
  · rw [← hfits, hbool]

-- A conjunction has the value of an operand, and both operands are truth values.
theorem logical_ty {op : Token} {left right : Expr} (hl : Agreeing ev env fs left)
    (hr : Agreeing ev env fs right) (hleft : left.isOperation = true)
    (hright : right.isOperation = true)
    (hstatic : exprType fs (.logical op left right) = .ok static)
    (hv : Eval.logical ev env op.kind left right w = .ok v t) :
    static = .bool ∧ v.ty = .bool := by
  simp only [exprType, bind_eq_ok] at hstatic
  obtain ⟨l, hltype, _, hlbool, r, hrtype, _, hrbool, ⟨⟩⟩ := hstatic
  refine ⟨rfl, ?_⟩
  unfold Eval.logical at hv
  obtain ⟨a, w₁, ha, hv⟩ := bind_eq_ok_iff.mp hv
  split at hv
  · obtain ⟨c, w₂, -, hv⟩ := bind_eq_ok_iff.mp hv
    split at hv
    · exact hr.of_logicalOperand hright hrtype hrbool hv
    · cases hv
      exact hl.of_logicalOperand hleft hltype hlbool ha
  · obtain ⟨b, w₂, -, hv⟩ := bind_eq_ok_iff.mp hv
    obtain ⟨_, _, -, hv⟩ := bind_eq_ok_iff.mp hv
    obtain ⟨_, _, -, hv⟩ := bind_eq_ok_iff.mp hv
    cases hv
    rfl

theorem unary_ty {op : Token} {operand : Expr} (hop : op.kind = .bang ∨ op.kind = .minus)
    (hstatic : exprType fs (.unary op operand) = .ok static)
    (hv : Eval.unary ev env op.kind operand w = .ok v t) : static = v.ty := by
  simp only [exprType, bind_eq_ok] at hstatic
  obtain ⟨_, -, hstatic⟩ := hstatic
  rw [unaryType_eq_ok hstatic]
  unfold Eval.unary at hv
  obtain ⟨a, w₁, -, hv⟩ := bind_eq_ok_iff.mp hv
  rcases hop with hop | hop
  · rw [hop] at hv ⊢
    obtain ⟨_, _, -, hv⟩ := bind_eq_ok_iff.mp hv
    cases hv
    rfl
  · rw [hop] at hv ⊢
    exact (Value.negate_ty (require_eq_ok_iff.mp hv).1).2.symm

theorem arithmetic_fits {op : Token} {left right : Expr} (hl : Agreeing ev env fs left)
    (hr : Agreeing ev env fs right)
    (hstatic : exprType fs (.arithmetic op left right) = .ok static)
    (hv : Eval.arithmetic ev env op.kind left right w = .ok v t) :
    (Expr.arithmetic op left right).Fits static v.ty := by
  simp only [exprType, bind_eq_ok] at hstatic
  obtain ⟨l, hltype, r, hrtype, hstatic⟩ := hstatic
  unfold Eval.arithmetic at hv
  obtain ⟨a, w₁, ha, hv⟩ := bind_eq_ok_iff.mp hv
  obtain ⟨b, w₂, hb, hv⟩ := bind_eq_ok_iff.mp hv
  obtain ⟨d, w₃, hd, hv⟩ := bind_eq_ok_iff.mp hv
  obtain ⟨hlfits, hlseen⟩ := hl w a w₁ l hltype ha
  obtain ⟨hrfits, hrseen⟩ := hr w₁ b w₂ r hrtype hb
  rw [ty_of_place hv]
  exact arithmeticType_fits hlfits hrfits hlseen hrseen hstatic
    (Heap.arithmetic_ty (reading_eq_ok_iff.mp hd).1)

theorem relational_ty {op : TokenKind} {left right : Expr}
    (hv : Eval.relational ev env op left right w = .ok v t) : v.ty = .bool := by
  unfold Eval.relational at hv
  obtain ⟨a, w₁, -, hv⟩ := bind_eq_ok_iff.mp hv
  obtain ⟨b, w₂, -, hv⟩ := bind_eq_ok_iff.mp hv
  exact Heap.relational_ty (reading_eq_ok_iff.mp hv).1

-- One step of an evaluation. The parts of a list or of a dictionary have no say in its type.
theorem Agreeing.step {e : Expr} (hself : e.isOperation = true) (hformed : e.isFormed = true)
    (hchildren : ∀ x ∈ e.children, x.isOperation = true ∧ Agreeing ev env fs x)
    (hstatic : exprType fs e = .ok static) (hv : Eval.expr ev env e w = .ok v t) :
    e.Fits static v.ty ∧ Seen e v.ty := by
  cases e with
  | constant token =>
    rw [exprType] at hstatic
    cases hstatic
    refine ⟨(Eval.constant_ty (require_eq_ok_iff.mp hv).1).symm, fun h => ?_⟩
    cases h
  | logical op left right =>
    obtain ⟨hleft, hl⟩ := hchildren left (List.mem_cons_self ..)
    obtain ⟨hright, hr⟩ := hchildren right (by simp [Expr.children, Expr.operands])
    obtain ⟨rfl, hty⟩ := logical_ty hl hr hleft hright hstatic hv
    refine ⟨hty.symm, fun h => ?_⟩
    cases h
  | relational op left right =>
    simp only [exprType, relationalType, bind_eq_ok] at hstatic
    obtain ⟨_, -, _, -, _, -, ⟨⟩⟩ := hstatic
    refine ⟨(relational_ty hv).symm, fun h => ?_⟩
    cases h
  | arithmetic op left right =>
    obtain ⟨-, hl⟩ := hchildren left (List.mem_cons_self ..)
    obtain ⟨-, hr⟩ := hchildren right (by simp [Expr.children, Expr.operands])
    refine ⟨arithmetic_fits hl hr hstatic hv, fun h => ?_⟩
    cases h
  | unary op operand =>
    have hop : op.kind = .bang ∨ op.kind = .minus := by simpa [Expr.isFormed] using hformed
    refine ⟨unary_ty hop hstatic hv, fun h => ?_⟩
    cases h
  | array bracket items =>
    simp only [exprType, bind_eq_ok] at hstatic
    obtain ⟨_, -, ⟨⟩⟩ := hstatic
    obtain ⟨values, w₁, -, hv⟩ := bind_eq_ok_iff.mp hv
    have hty := ty_of_place hv
    exact ⟨hty.symm, fun _ => hty⟩
  | dict brace es =>
    simp only [exprType, bind_eq_ok] at hstatic
    obtain ⟨_, -, ⟨⟩⟩ := hstatic
    obtain ⟨table, w₁, -, hv⟩ := bind_eq_ok_iff.mp hv
    refine ⟨(ty_of_place hv).symm, fun h => ?_⟩
    cases h
  | _ => cases hself

-- A whole evaluation, by induction on its bound.
theorem agreeing_of_closed (fuel : Nat) {e : Expr} (hformed : e.Formed) (hclosed : e.Closed) :
    Agreeing (evaluators fuel) env fs e := by
  induction fuel generalizing e with
  | zero =>
    intro w v t static _ hv
    rw [evaluators_zero] at hv
    cases hv
  | succ n ih =>
    intro w v t static hstatic hv
    rw [evaluators_succ] at hv
    have hself := Expr.mem_parts_self e
    refine Agreeing.step (hclosed e hself) (hformed e hself) (fun x hx => ?_) hstatic
      (atLine_eq_ok_iff.mp hv)
    exact ⟨hclosed.child hx x (Expr.mem_parts_self x), ih (hformed.child hx) (hclosed.child hx)⟩

end

-- Static types of closed expressions are the types of their values, except where a list is
-- repeated that is written as a factor: the product is typed as a number and is a list.
theorem closed_type_name_iff {source : String} {p : Program} (hp : parse source = .ok p) {e : Expr}
    (he : e ∈ Program.expressions p) (hclosed : e.Closed) {fs : Typing.Functions} {static : Ty}
    (hstatic : Typing.exprType fs e = .ok static) {fuel env : Nat} {w t : World} {v : Value}
    (hv : evalExpr fuel env e w = .ok v t) :
    (v.ty.name = static.name ↔ e.isMistyped = false) ∧
      (e.isMistyped = true → static = .number ∧ v.ty = .list) := by
  have hformed := (Program.formed_of_mem hp).2 e he
  have hfits := (agreeing_of_closed fuel hformed hclosed w v t static hstatic hv).1
  unfold Expr.Fits at hfits
  split at hfits
  · next hmistyped =>
    obtain ⟨rfl, hlist⟩ := hfits
    rw [hlist, hmistyped]
    simp [Ty.name]
  · next hmistyped =>
    simp [hfits, hmistyped]

-- The type of what an evaluation comes to.
def Outcome.ty? : Outcome Value → Option Ty
  | .ok v _ => some v.ty
  | .error _ _ => none

theorem Outcome.exists_of_ty? {r : Outcome Value} {ty : Ty} (h : r.ty? = some ty) :
    ∃ v t, r = .ok v t ∧ v.ty = ty := by
  cases r with
  | ok v t => exact ⟨v, t, rfl, Option.some.inj h⟩
  | error s t => cases h

theorem eq_ok_of_toOption {ε α : Type} {x : Except ε α} {a : α} (h : x.toOption = some a) :
    x = .ok a := by
  cases x with
  | ok b => exact congrArg _ (Option.some.inj h)
  | error e => cases h

set_option maxRecDepth 10000 in
-- A truth value that is made of strings and of lists.
theorem closed_type_name_of_conjunction :
    ∃ p, parse "print(2 * \"ab\" == \"abab\" && !([1] + [2] == [2]))" = .ok p ∧
      ∃ e ∈ Program.expressions p, e.Closed ∧ Typing.exprType [] e = .ok .bool ∧
        ∃ v t, evalExpr 10 globals e (World.fresh (.captured "") ⟨true, .loopback⟩) = .ok v t ∧
          v.ty.name = Ty.bool.name := by
  obtain ⟨p, hp, e, he, hclosed, hmistyped, hstatic, hv⟩ :
      ∃ p, parse "print(2 * \"ab\" == \"abab\" && !([1] + [2] == [2]))" = .ok p ∧
        ∃ e ∈ Program.expressions p, e.Closed ∧ e.isMistyped = false ∧
          (Typing.exprType [] e).toOption = some .bool ∧
          Outcome.ty? (evalExpr 10 globals e (World.fresh (.captured "") ⟨true, .loopback⟩)) =
            some .bool :=
    exists_of_any (by decide +kernel)
  obtain ⟨v, t, hv, -⟩ := Outcome.exists_of_ty? hv
  have hstatic := eq_ok_of_toOption hstatic
  refine ⟨p, hp, e, he, hclosed, hstatic, v, t, hv, ?_⟩
  exact (closed_type_name_iff hp he hclosed hstatic hv).1.mpr hmistyped

set_option maxRecDepth 10000 in
-- A list that is written as a factor.
theorem repeated_list_typed_as_number :
    ∃ p, parse "print([1] * 2)" = .ok p ∧
      ∃ e ∈ Program.expressions p, e.Closed ∧ Typing.exprType [] e = .ok .number ∧
        ∃ v t, evalExpr 10 globals e (World.fresh (.captured "") ⟨true, .loopback⟩) = .ok v t ∧
          v.ty = .list := by
  obtain ⟨p, hp, e, he, hclosed, hstatic, hv⟩ :
      ∃ p, parse "print([1] * 2)" = .ok p ∧
        ∃ e ∈ Program.expressions p, e.Closed ∧
          (Typing.exprType [] e).toOption = some .number ∧
          Outcome.ty? (evalExpr 10 globals e (World.fresh (.captured "") ⟨true, .loopback⟩)) =
            some .list :=
    exists_of_any (by decide +kernel)
  exact ⟨p, hp, e, he, hclosed, eq_ok_of_toOption hstatic, Outcome.exists_of_ty? hv⟩

end Parlance
