import Parlance.Host.Local
import Parlance.Proofs.Decimal.Reading
import Parlance.Proofs.Ordinary
import Parlance.Proofs.Syntax
import Parlance.Typing.Expr

namespace Parlance

namespace Eval

theorem invoke_name (ev : Evaluators) (env : Nat) (args : List Value) (b : Builtin) :
    invoke ev env b.name args = builtin ev env args b := by
  simp only [invoke, Builtin.ofName?_name]

theorem invoke_toNumber (ev : Evaluators) (env : Nat) (v : Value) (w : World) :
    invoke ev env "to_number" [v] w = Exec.require (Builtin.number v) w := by
  rw [show "to_number" = Builtin.toNumber.name from rfl, invoke_name]
  rfl

end Eval

namespace Builtin

-- The types of the results of the built-in functions.
def resultTy : Builtin → Ty
  | print | sleep | debug | close | listen | append | sort => .void
  | input | toText | send | strip | lower => .string
  | toBool | isEmpty | isAlpha | isNumeral | contains => .bool
  | toNumber | len | sum | pow | sqrt | exp | random => .number
  | intersection | keys | split | range => .list

theorem builtinType?_name (b : Builtin) : builtinType? b.name = some b.resultTy := by
  cases b <;> rfl

theorem ofName?_isSome (name : String) :
    (ofName? name).isSome = (builtinType? name).isSome := by
  cases hb : ofName? name with
  | some b =>
    rw [name_of_ofName? hb, builtinType?_name]
    rfl
  | none =>
    have hall : signatures.all (fun e => (ofName? e.1).isSome) = true := by rfl
    refine (Bool.eq_false_iff.mpr fun h => ?_).symm
    obtain ⟨e, he, hname⟩ := List.lookup_isSome_iff.mp h
    have hsome := List.all_eq_true.mp hall e he
    rw [← eq_of_beq hname, hb] at hsome
    cases hsome

-- An integer in digits is also a double in digits, so that a text that is no double is no
-- number at all.
theorem isSome_numeral? (s : String) : (numeral? s).isSome = (Decimal.float? s).isSome := by
  cases hint : Decimal.int? s with
  | none => simp [numeral?, hint]
  | some n =>
    have hfloat := Decimal.isSome_float? (Decimal.unsigned_of_int? (by rw [hint]; rfl))
    simp [numeral?, hint, hfloat]

theorem number_str_isOk (s : String) :
    (∃ v, number (.str s) = .ok v) ↔ isNumber s = true := by
  unfold isNumber number
  rw [← isSome_numeral?]
  cases hv : numeral? (Text.trim s) <;> simp [hv, refuse]

theorem number_toString (n : Int64) : number (.str (toString n.toInt)) = .ok (.int n) := by
  have hint : numeral? (toString n.toInt) = some (.int n) := by
    rw [numeral?, Decimal.int?_toString]
    rfl
  unfold number
  simp only [Text.trim_toString, hint]

theorem exactly_ty {n : Option Int64} {v : Value} (h : exactly n = .ok v) : v.ty = .number := by
  unfold exactly at h
  split at h <;> cases h
  rfl

theorem numeral?_ty {s : String} {v : Value} (h : numeral? s = some v) : v.ty = .number := by
  unfold numeral? at h
  cases hint : Decimal.int? s with
  | some n =>
    rw [hint] at h
    cases h
    rfl
  | none =>
    rw [hint, Option.map_none, Option.none_or, Option.map_eq_some_iff] at h
    obtain ⟨x, -, rfl⟩ := h
    rfl

theorem number_ty {v r : Value} (h : number v = .ok r) : r.ty = .number := by
  unfold number at h
  split at h
  · cases h
    rfl
  · cases h
    rfl
  · cases h
    rfl
  · split at h
    · next hv =>
      cases h
      exact numeral?_ty hv
    · cases h
  · cases h

theorem addTo_ty {total v r : Value} (h : addTo total v = .ok r) : r.ty = .number := by
  unfold addTo at h
  split at h
  · exact exactly_ty h
  · obtain ⟨x, -, h⟩ := bind_eq_ok.mp h
    obtain ⟨y, -, h⟩ := bind_eq_ok.mp h
    cases h
    rfl

theorem foldlM_addTo_ty {items : List Value} {start r : Value} (hstart : start.ty = .number)
    (h : items.foldlM addTo start = .ok r) : r.ty = .number := by
  induction items generalizing start with
  | nil =>
    cases h
    exact hstart
  | cons item items ih =>
    rw [List.foldlM_cons] at h
    obtain ⟨next, hnext, h⟩ := bind_eq_ok.mp h
    exact ih (addTo_ty hnext) h

theorem power_ty {base exponent r : Value} (h : power base exponent = .ok r) :
    r.ty = .number := by
  have hfloats : ∀ {r}, (do
      let x ← base.asFloat "`pow` base"
      let y ← exponent.asFloat "`pow` exponent"
      return .float (x.pow y) : Except Stop Value) = .ok r → r.ty = .number := by
    intro r h
    obtain ⟨x, -, h⟩ := bind_eq_ok.mp h
    obtain ⟨y, -, h⟩ := bind_eq_ok.mp h
    cases h
    rfl
  unfold power at h
  split at h
  · split at h
    · exact exactly_ty h
    · exact hfloats h
  · exact hfloats h

theorem root_ty {v r : Value} (h : root v = .ok r) : r.ty = .number := by
  obtain ⟨x, -, h⟩ := bind_eq_ok.mp h
  split at h
  · cases h
  · cases h
    rfl

theorem draw_ty {draws : Draws} {turn : Nat} {args : List Value} {r : Value}
    (h : draw draws turn args = .ok r) : r.ty = .number := by
  unfold draw at h
  split at h
  · cases h
    rfl
  · obtain ⟨low, -, h⟩ := bind_eq_ok.mp h
    obtain ⟨high, -, h⟩ := bind_eq_ok.mp h
    split at h
    · cases h
      rfl
    · cases h
  · cases h

end Builtin

-- A text is a numeral exactly where there is a number in it, although numerals are those of
-- doubles and a number is an integer first; and what is written for an integer is read back
-- as this integer.
theorem isnum_predicts_to_number (ev : Evaluators) (env : Nat) (w : World) (s : String)
    (n : Int64) :
    (∃ b, Eval.invoke ev env "isnum" [.str s] w = .ok (.bool b) w ∧
      (b = true ↔ ∃ v t, Eval.invoke ev env "to_number" [.str s] w = .ok v t)) ∧
    ∃ text, Eval.invoke ev env "to_string" [.int n] w = .ok (.str text) w ∧
      Eval.invoke ev env "to_number" [.str text] w = .ok (.int n) w := by
  constructor
  · have hisnum : Eval.invoke ev env "isnum" [.str s] w =
        .ok (.bool (Builtin.isNumber s)) w := by
      rw [show "isnum" = Builtin.isNumeral.name from rfl, Eval.invoke_name]
      rfl
    refine ⟨Builtin.isNumber s, hisnum, ?_⟩
    rw [Eval.invoke_toNumber, ← Builtin.number_str_isOk]
    unfold Exec.require Exec.reading
    cases Builtin.number (.str s) <;> simp
  · have htext : Eval.invoke ev env "to_string" [.int n] w =
        .ok (.str (toString n.toInt)) w := by
      rw [show "to_string" = Builtin.toText.name from rfl, Eval.invoke_name]
      rfl
    refine ⟨toString n.toInt, htext, ?_⟩
    rw [Eval.invoke_toNumber, Builtin.number_toString]
    rfl

-- All results of a computation have one type.
def Yields (ty : Ty) (x : Exec Value) : Prop :=
  ∀ w v t, x w = .ok v t → v.ty = ty

namespace Yields

open Exec

variable {α : Type} {ty : Ty}

theorem of_pure {v : Value} (h : v.ty = ty) : Yields ty (pure v) := by
  rintro w v t ⟨⟩
  exact h

theorem of_fault (cause : RuntimeFault) : Yields ty (fault cause) := by
  rintro w v t ⟨⟩

theorem bind {x : Exec α} {f : α → Exec Value} (h : ∀ a, Yields ty (f a)) :
    Yields ty (x >>= f) := by
  intro w v t hv
  rw [bind_apply] at hv
  split at hv
  · exact h _ _ _ _ hv
  · cases hv

theorem of_ask {question : Host → Nat → α} {f : α → Exec Value}
    (h : ∀ host turn, Yields ty (f (question host turn))) : Yields ty (ask question >>= f) :=
  fun _ _ _ hv => h _ _ _ _ _ hv

theorem of_reading {f : Heap → Except Stop Value} (h : ∀ heap v, f heap = .ok v → v.ty = ty) :
    Yields ty (reading f) := by
  intro w v t hv
  unfold reading at hv
  split at hv
  · next hf =>
    cases hv
    exact h _ _ hf
  · cases hv

theorem of_require {x : Except Stop Value} (h : ∀ v, x = .ok v → v.ty = ty) :
    Yields ty (require x) :=
  of_reading fun _ => h

theorem of_option {f : Option α → Exec Value} (hsome : ∀ a, Yields ty (f (some a)))
    (hnone : Yields ty (f none)) (o : Option α) : Yields ty (f o) := by
  cases o with
  | some a => exact hsome a
  | none => exact hnone

theorem of_list (items : Array Value) : Yields .list (place (.list items)) := by
  rintro w v t ⟨⟩
  rfl

theorem of_value (b : Builtin) (args : List Value) {f : Heap → Value → Except Stop Value}
    (h : ∀ heap v r, f heap v = .ok r → r.ty = ty) : Yields ty (Eval.ofValue b args f) := by
  refine of_reading fun heap r hr => ?_
  obtain ⟨v, -, hr⟩ := bind_eq_ok.mp hr
  exact h heap v r hr

theorem of_text (b : Builtin) (args : List Value) {f : String → Value}
    (h : ∀ s, (f s).ty = ty) : Yields ty (Eval.ofText b args f) := by
  refine of_value b args fun heap v r hr => ?_
  cases hr
  exact h _

end Yields

namespace Eval

theorem input_yields (args : List Value) : Yields .string (input args) := by
  unfold input
  split
  · exact .bind (.of_option (fun _ => .of_pure rfl) (.of_fault _))
  · exact .bind fun _ => .bind fun _ =>
      .bind (.of_option (fun _ => .of_pure rfl) (.of_fault _))
  · exact .bind fun _ => .bind (.of_option (fun _ => .of_pure rfl) (.of_fault _))

-- The results of a built-in function have the type that is declared for it, whatever its
-- arguments are.
theorem builtin_yields (ev : Evaluators) (env : Nat) (args : List Value) (b : Builtin) :
    Yields b.resultTy (builtin ev env args b) := by
  unfold builtin
  cases b with
  | print => exact .bind fun _ => .bind fun _ => .of_pure rfl
  | input => exact input_yields args
  | sleep =>
    refine .bind fun v => .bind fun seconds => ?_
    split
    · exact .of_pure rfl
    · exact .of_fault _
  | debug => exact .bind fun _ => .bind fun _ => .of_pure rfl
  | toNumber => exact .of_value _ _ fun _ _ _ => Builtin.number_ty
  | toText | strip | lower | isAlpha | isNumeral =>
    refine .of_text _ args fun s => ?_
    rfl
  | toBool =>
    refine .of_value _ _ fun _ _ r hr => ?_
    cases hr
    rfl
  | send =>
    refine .bind fun args => ?_
    split
    · exact .bind fun _ => .bind fun _ => .of_pure rfl
    · exact .of_fault _
  | close =>
    refine .bind fun arg => ?_
    split
    · exact .bind fun _ => .of_pure rfl
    · exact .of_fault _
  | listen =>
    refine .bind fun arg => ?_
    split
    · exact .bind fun _ => .of_pure rfl
    · exact .of_fault _
  | len | isEmpty =>
    refine .of_value _ _ fun _ _ r hr => ?_
    obtain ⟨n, -, hr⟩ := bind_eq_ok.mp hr
    cases hr
    rfl
  | sum =>
    refine .of_value _ _ fun _ _ r hr => ?_
    obtain ⟨ref, -, hr⟩ := bind_eq_ok.mp hr
    exact Builtin.foldlM_addTo_ty rfl hr
  | intersection =>
    refine .bind fun args => ?_
    split
    · exact .bind fun _ => .of_list _
    · exact .of_fault _
  | contains =>
    refine .of_reading fun _ r hr => ?_
    obtain ⟨args, -, hr⟩ := bind_eq_ok.mp hr
    obtain ⟨b, -, hr⟩ := bind_eq_ok.mp hr
    cases hr
    rfl
  | append => exact .bind fun _ => .bind fun _ => .bind fun _ => .of_pure rfl
  | sort => exact .bind fun _ => .bind fun _ => .bind fun _ => .of_pure rfl
  | keys =>
    refine .bind fun arg => ?_
    split
    · exact .bind fun _ => .of_list _
    · exact .of_fault _
  | split => exact .bind fun _ => .of_list _
  | pow =>
    refine .of_require fun r hr => ?_
    obtain ⟨args, -, hr⟩ := bind_eq_ok.mp hr
    exact Builtin.power_ty hr
  | sqrt => exact .of_value _ _ fun _ _ _ => Builtin.root_ty
  | exp =>
    refine .of_value _ _ fun _ _ r hr => ?_
    obtain ⟨x, -, hr⟩ := bind_eq_ok.mp hr
    cases hr
    rfl
  | range => exact .bind fun _ => .of_list _
  | random => exact .of_ask fun _ _ => .of_require fun _ => Builtin.draw_ty

theorem invoke_yields (ev : Evaluators) (env : Nat) (args : List Value) {name : String} {ty : Ty}
    (h : builtinType? name = some ty) : Yields ty (invoke ev env name args) := by
  have hsome := Builtin.ofName?_isSome name
  rw [h] at hsome
  obtain ⟨b, hb⟩ := Option.isSome_iff_exists.mp hsome
  rw [Builtin.name_of_ofName? hb] at h ⊢
  rw [Builtin.builtinType?_name] at h
  cases h
  rw [invoke_name]
  exact builtin_yields ev env args b

theorem expr_yields (ev : Evaluators) (env : Nat) {e : Expr} {name : String} {ty : Ty}
    (he : e.callName? = some name) (h : builtinType? name = some ty) :
    Yields ty (expr ev env e) := by
  cases e with
  | call =>
    cases he
    exact .bind fun _ => invoke_yields ev env _ h
  | method =>
    cases he
    exact .bind fun _ => .bind fun _ => invoke_yields ev env _ h
  | _ => cases he

end Eval

theorem Expr.ty_of_callName? {e : Expr} {name : String} {ty : Ty} (he : e.callName? = some name)
    (h : builtinType? name = some ty) : e.ty = ty := by
  cases e with
  | call | method =>
    cases he
    simp [Expr.ty, Expr.callTy, h]
  | _ => cases he

namespace Typing

variable {fs : Functions} {ty found : Ty}

-- What the checker makes of a call of a built-in function. Only a missing channel stands in
-- the way of its type.
theorem callType_eq_ok_iff {name : Token} {callee : Option Ty} {args : List (Expr × Ty)}
    (h : builtinType? name.lexeme = some ty) :
    callType fs name callee args = .ok found ↔
      found = ty ∧
        ∀ expected ∈ channelOf? name.lexeme, channelArgument name expected args = .ok () := by
  unfold callType
  rw [h]
  cases channelOf? name.lexeme with
  | none => simp [pure, Except.pure, eq_comm]
  | some expected =>
    simp only [bind, Except.bind, Option.mem_some_iff, forall_eq']
    cases channelArgument name expected args <;> simp [pure, Except.pure, eq_comm]

theorem exprType_of_callName? {e : Expr} {name : String} (he : e.callName? = some name)
    (hty : builtinType? name = some ty) (h : exprType fs e = .ok found) : found = ty := by
  cases e with
  | call =>
    cases he
    rw [exprType] at h
    obtain ⟨typed, -, h⟩ := bind_eq_ok.mp h
    exact ((callType_eq_ok_iff hty).mp h).1
  | method =>
    cases he
    rw [exprType] at h
    obtain ⟨receiver, -, h⟩ := bind_eq_ok.mp h
    obtain ⟨typed, -, h⟩ := bind_eq_ok.mp h
    exact ((callType_eq_ok_iff hty).mp h).1
  | _ => cases he

end Typing

-- Signatures and built-in functions have the same names. A call of one of them that gives a
-- value gives one of the type that the signature declares, whatever the arguments, the
-- frame and the world are. This is the type that is read off the call and the one that the
-- checker gives it, which misses nothing but the channel that some of them work on.
theorem signatures_match_builtins (name : String) :
    (Builtin.ofName? name).isSome = (builtinType? name).isSome ∧
    ∀ ty, builtinType? name = some ty →
      (∀ ev env args w v t, Eval.invoke ev env name args w = .ok v t → v.ty = ty) ∧
      (∀ fs token callee args found, token.lexeme = name →
        (Typing.callType fs token callee args = .ok found ↔
          found = ty ∧ ∀ expected ∈ Typing.channelOf? name,
            Typing.channelArgument token expected args = .ok ())) ∧
      ∀ e : Expr, e.callName? = some name →
        e.ty = ty ∧
        (∀ fs found, Typing.exprType fs e = .ok found → found = ty) ∧
        ∀ ev env w v t, Eval.expr ev env e w = .ok v t → v.ty = ty := by
  refine ⟨Builtin.ofName?_isSome name, fun ty hty => ⟨?_, ?_, fun e he => ⟨?_, ?_, ?_⟩⟩⟩
  · exact fun ev env args => Eval.invoke_yields ev env args hty
  · rintro fs token callee args found rfl
    exact Typing.callType_eq_ok_iff hty
  · exact Expr.ty_of_callName? he hty
  · exact fun fs found => Typing.exprType_of_callName? he hty
  · exact fun ev env => Eval.expr_yields ev env he hty

-- The sum of a list of integers.
theorem sum_matches_signature :
    builtinType? "sum" = some .number ∧
      ∃ w v, Eval.invoke (evaluators 0) globals "sum" [.list 0] w = .ok v w ∧
        v = .int 3 ∧ v.ty = .number := by
  let w : World := { World.fresh (.captured "") ⟨true, .loopback⟩ with
    heap := { Heap.empty with lists := #[#[.int 1, .int 2]] } }
  have hsum : Eval.invoke (evaluators 0) globals "sum" [.list 0] w = .ok (.int 3) w := by rfl
  exact ⟨rfl, w, .int 3, hsum, rfl,
    ((signatures_match_builtins "sum").2 .number rfl).1 _ _ _ _ _ _ hsum⟩

end Parlance
