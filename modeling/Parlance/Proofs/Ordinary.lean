import Parlance.Builtin.Collection
import Parlance.Builtin.Conversion
import Parlance.Builtin.Number
import Parlance.Heap.Index

namespace Parlance

theorem bind_eq_ok {ε α β : Type} {x : Except ε α} {f : α → Except ε β} {b : β} :
    x >>= f = .ok b ↔ ∃ a, x = .ok a ∧ f a = .ok b := by
  cases x with
  | ok a =>
    refine ⟨fun h => ⟨a, rfl, h⟩, ?_⟩
    rintro ⟨_, ⟨⟩, h⟩
    exact h
  | error e =>
    refine ⟨fun h => ?_, ?_⟩
    · cases h
    · rintro ⟨_, ⟨⟩, _⟩

-- The failures that operations on values can have. The others are about names, calls,
-- literals, operators and the places of statements, and depend on the text of a program.
def RuntimeFault.isOrdinary : RuntimeFault → Bool
  | .undefinedVariable _ | .undefinedFunction _ | .invalidNumber _ | .notAssignable _
  | .missingArgument _ _ | .recursionLimit _ | .returnOutside | .outsideLoop _ | .runCrashed
  | .unknownRelational _ | .unknownArithmetic _ => false
  | _ => true

namespace TokenKind

def isRelational : TokenKind → Bool
  | equalEqual | notEqual | less | lessEqual | greater | greaterEqual => true
  | _ => false

def isArithmetic : TokenKind → Bool
  | plus | minus | star | slash | percent => true
  | _ => false

end TokenKind

namespace Stop

-- Stopping in an ordinary way, before a line has been found for the failure.
def Ordinary : Stop → Prop
  | .fault f => ∃ cause : RuntimeFault, f = .runtime cause ∧ cause.isOrdinary = true
  | .crash => False
  | .outOfFuel => False

theorem ordinary_runtime {cause : RuntimeFault} (h : cause.isOrdinary = true) :
    Ordinary (.fault (.runtime cause)) :=
  ⟨cause, rfl, h⟩

-- Stopping for none of the failures that a test picks out.
def Avoids (bad : RuntimeFault → Bool) (s : Stop) : Prop :=
  ∀ f cause, s = .fault f → f.cause = .runtime cause → bad cause = false

variable {bad : RuntimeFault → Bool}

theorem avoids_outOfFuel : Avoids bad .outOfFuel := by
  rintro f cause ⟨⟩

theorem avoids_crash : Avoids bad .crash := by
  rintro f cause ⟨⟩

theorem avoids_runtime {cause : RuntimeFault} (h : bad cause = false) :
    Avoids bad (.fault (.runtime cause)) := by
  rintro _ _ ⟨⟩ ⟨⟩
  exact h

theorem avoids_orLine {f : Fault} (h : Avoids bad (.fault f)) (line : Nat) :
    Avoids bad (.fault (f.orLine line)) := by
  rintro _ cause ⟨⟩ hcause
  exact h f cause rfl hcause

theorem avoids_of_ordinary
    (hbad : ∀ cause : RuntimeFault, cause.isOrdinary = true → bad cause = false) {s : Stop}
    (hs : s.Ordinary) : Avoids bad s := by
  rintro f cause rfl hcause
  obtain ⟨other, rfl, hordinary⟩ := hs
  cases hcause
  exact hbad _ hordinary

end Stop

-- A computation on values that fails in ordinary ways only.
def Ordinarily {α : Type} (x : Except Stop α) : Prop :=
  ∀ s, x = .error s → s.Ordinary

namespace Ordinarily

variable {α β : Type}

theorem of_ok (a : α) : Ordinarily (.ok a) := by
  intro s h
  cases h

theorem of_pure (a : α) : Ordinarily (pure a : Except Stop α) :=
  of_ok a

theorem of_refuse {cause : RuntimeFault} (h : cause.isOrdinary = true) :
    Ordinarily (refuse cause : Except Stop α) := by
  intro s hs
  cases hs
  exact Stop.ordinary_runtime h

theorem bind {x : Except Stop α} {f : α → Except Stop β} (hx : Ordinarily x)
    (hf : ∀ a, Ordinarily (f a)) : Ordinarily (x >>= f) := by
  cases x with
  | error s =>
    intro s' h
    cases h
    exact hx s rfl
  | ok a => exact hf a

theorem map {x : Except Stop α} (hx : Ordinarily x) (f : α → β) : Ordinarily (f <$> x) := by
  cases x with
  | error s =>
    intro s' h
    cases h
    exact hx s rfl
  | ok a => exact of_ok (f a)

theorem of_ite {p : Prop} [Decidable p] {x y : Except Stop α} (hx : Ordinarily x)
    (hy : Ordinarily y) : Ordinarily (if p then x else y) := by
  split
  · exact hx
  · exact hy

end Ordinarily

theorem exactly_ordinarily (n : Option Int64) : Ordinarily (exactly n) := by
  cases n with
  | some n => exact .of_ok _
  | none => exact .of_refuse rfl

namespace Value

theorem asInt_ordinarily (what : String) (v : Value) : Ordinarily (v.asInt what) := by
  cases v with
  | int n => exact .of_ok n
  | float x => exact .of_ite (.of_ok _) (.of_refuse rfl)
  | _ => exact .of_refuse rfl

theorem asText_ordinarily (what : String) (v : Value) : Ordinarily (v.asText what) := by
  cases v with
  | str s => exact .of_ok s
  | _ => exact .of_refuse rfl

theorem asFloat_ordinarily (what : String) (v : Value) : Ordinarily (v.asFloat what) := by
  unfold asFloat
  split
  · exact .of_ok _
  · exact .of_refuse rfl

theorem negate_ordinarily (v : Value) : Ordinarily v.negate := by
  cases v with
  | int n => exact exactly_ordinarily _
  | float x => exact .of_ok _
  | _ => exact .of_refuse rfl

theorem order_ordinarily (a b : Value) : Ordinarily (a.order b) := by
  unfold order
  split
  · exact .of_ok _
  · exact .of_ok _
  · split
    · split
      · exact .of_ok _
      · exact .of_refuse rfl
    · exact .of_refuse rfl

end Value

theorem position_ordinarily (what : String) (index : Int64) (length : Nat) :
    Ordinarily (position what index length) := by
  unfold position
  split
  · exact .of_ok _
  · exact .of_refuse rfl

namespace Heap

theorem index_ordinarily (h : Heap) (container i : Value) : Ordinarily (h.index container i) := by
  cases container with
  | list ref =>
    exact .bind (i.asInt_ordinarily _) fun _ =>
      .bind (position_ordinarily _ _ _) fun _ => .of_pure _
  | str s =>
    exact .bind (i.asInt_ordinarily _) fun _ =>
      .bind (position_ordinarily _ _ _) fun _ => .of_pure _
  | dict ref =>
    refine .bind (i.asText_ordinarily _) fun key => ?_
    split
    · exact .of_pure _
    · exact .of_refuse rfl
  | _ => exact .of_refuse rfl

theorem slice_ordinarily (h : Heap) (container : Value) (start stop : Option Int64) :
    Ordinarily (h.slice container start stop) := by
  cases container with
  | list ref => exact .of_ok _
  | str s => exact .of_ok _
  | _ => exact .of_refuse rfl

theorem slot_ordinarily (h : Heap) (container i : Value) : Ordinarily (h.slot container i) := by
  cases container with
  | list ref =>
    exact .bind (i.asInt_ordinarily _) fun _ =>
      .bind (position_ordinarily _ _ _) fun _ => .of_pure _
  | dict ref => exact .bind (i.asText_ordinarily _) fun _ => .of_pure _
  | _ => exact .of_refuse rfl

theorem iterate_ordinarily (h : Heap) (v : Value) : Ordinarily (h.iterate v) := by
  cases v with
  | list ref => exact .of_ok _
  | dict ref => exact .of_ok _
  | str s => exact .of_ok _
  | _ => exact .of_refuse rfl

theorem itemsEqual_ordinarily {eq : Value → Value → Except Stop Bool}
    (heq : ∀ a b, Ordinarily (eq a b)) (xs ys : List Value) :
    Ordinarily (itemsEqual eq xs ys) := by
  induction xs generalizing ys with
  | nil => exact .of_ok _
  | cons x xs ih =>
    cases ys with
    | nil => exact .of_ok _
    | cons y ys => exact .bind (heq x y) fun _ => .of_ite (ih ys) (.of_pure _)

theorem entriesEqual_ordinarily {eq : Value → Value → Except Stop Bool}
    (heq : ∀ a b, Ordinarily (eq a b)) (xs ys : List (String × Value)) :
    Ordinarily (entriesEqual eq xs ys) := by
  induction xs generalizing ys with
  | nil => exact .of_ok _
  | cons x xs ih =>
    cases ys with
    | nil => exact .of_ok _
    | cons y ys =>
      exact .of_ite (.bind (heq x.2 y.2) fun _ => .of_ite (ih ys) (.of_pure _)) (.of_pure _)

theorem equalTo_ordinarily (h : Heap) (depth : Nat) (a b : Value) :
    Ordinarily (h.equalTo depth a b) := by
  induction depth generalizing a b with
  | zero =>
    unfold equalTo
    split
    · exact .of_ite (.of_ok _) (.of_refuse rfl)
    · exact .of_ite (.of_ok _) (.of_refuse rfl)
    · exact .of_ok _
  | succ depth ih =>
    unfold equalTo
    split
    · exact .of_ite (.of_ok _) (.of_ite (itemsEqual_ordinarily ih _ _) (.of_ok _))
    · exact .of_ite (.of_ok _) (.of_ite (entriesEqual_ordinarily ih _ _) (.of_ok _))
    · exact .of_ok _

theorem equal_ordinarily (h : Heap) (a b : Value) : Ordinarily (h.equal a b) :=
  equalTo_ordinarily h _ a b

-- A comparison fails in ordinary ways if its operator is one.
theorem relational_ordinarily (h : Heap) {op : TokenKind} (hop : op.isRelational = true)
    (a b : Value) : Ordinarily (h.relational op a b) := by
  cases op with
  | equalEqual => exact .bind (equal_ordinarily h a b) fun _ => .of_pure _
  | notEqual => exact .bind (equal_ordinarily h a b) fun _ => .of_pure _
  | less | lessEqual | greater | greaterEqual =>
    exact .bind (a.order_ordinarily b) fun _ => .of_pure _
  | _ => cases hop

theorem relational_of_not {h : Heap} {op : TokenKind} (hop : op.isRelational = false)
    (a b : Value) : h.relational op a b = refuse (.unknownRelational op) := by
  cases op <;> first | rfl | cases hop

-- A text or a list is to be repeated to more bytes than can be addressed.
def Overflows (h : Heap) (a b : Value) : Prop :=
  ∃ n : Int64,
    (∃ s, (a = .str s ∧ b = .int n ∨ a = .int n ∧ b = .str s) ∧
      addressable < s.utf8ByteSize * n.toInt.toNat) ∨
    ∃ ref, (a = .list ref ∧ b = .int n ∨ a = .int n ∧ b = .list ref) ∧
      addressable < (h.list ref).size * valueBytes * n.toInt.toNat

theorem repeatText_error {s : String} {times : Nat} {stop : Stop}
    (h : repeatText s times = .error stop) :
    stop = .crash ∧ addressable < s.utf8ByteSize * times := by
  unfold repeatText at h
  split at h
  · next hlarge =>
    cases h
    exact ⟨rfl, hlarge⟩
  · split at h <;> cases h

theorem repeatItems_error {items : Array Value} {times : Nat} {stop : Stop}
    (h : repeatItems items times = .error stop) :
    stop = .crash ∧ addressable < items.size * valueBytes * times := by
  unfold repeatItems at h
  split at h
  · next hlarge =>
    cases h
    exact ⟨rfl, hlarge⟩
  · split at h <;> cases h

theorem intArithmetic_ordinarily {op : TokenKind} (hop : op.isArithmetic = true) (a b : Int64) :
    Ordinarily (intArithmetic op a b) := by
  cases op with
  | plus | minus | star => exact exactly_ordinarily _
  | slash => exact .of_ite (.of_refuse rfl) (.of_ok _)
  | percent => exact .of_ite (.of_refuse rfl) (exactly_ordinarily _)
  | _ => cases hop

theorem floatArithmetic_ordinarily {op : TokenKind} (hop : op.isArithmetic = true) (a b : Float) :
    Ordinarily (floatArithmetic op a b) := by
  cases op with
  | plus | minus | star => exact .of_ok _
  | slash | percent => exact .of_ite (.of_refuse rfl) (.of_ok _)
  | _ => cases hop

-- Arithmetic fails in ordinary ways, unless a repetition becomes too large.
theorem arithmetic_error {h : Heap} {op : TokenKind} (hop : op.isArithmetic = true)
    {a b : Value} {s : Stop} (hs : h.arithmetic op a b = .error s) :
    s.Ordinary ∨ s = .crash ∧ op = .star ∧ h.Overflows a b := by
  unfold arithmetic at hs
  split at hs
  · exact .inl (Ordinarily.map (intArithmetic_ordinarily hop _ _) _ s hs)
  · exact .inl (Ordinarily.map (floatArithmetic_ordinarily hop _ _) _ s hs)
  · exact .inl (Ordinarily.map (floatArithmetic_ordinarily hop _ _) _ s hs)
  · exact .inl (Ordinarily.map (floatArithmetic_ordinarily hop _ _) _ s hs)
  · split at hs
    · cases hs
    · cases hs
    · obtain ⟨hstop, hlarge⟩ := repeatText_error hs
      exact .inr ⟨hstop, rfl, _, .inl ⟨_, .inl ⟨rfl, rfl⟩, hlarge⟩⟩
    · obtain ⟨hstop, hlarge⟩ := repeatItems_error hs
      exact .inr ⟨hstop, rfl, _, .inr ⟨_, .inl ⟨rfl, rfl⟩, hlarge⟩⟩
    · obtain ⟨hstop, hlarge⟩ := repeatText_error hs
      exact .inr ⟨hstop, rfl, _, .inl ⟨_, .inr ⟨rfl, rfl⟩, hlarge⟩⟩
    · obtain ⟨hstop, hlarge⟩ := repeatItems_error hs
      exact .inr ⟨hstop, rfl, _, .inr ⟨_, .inr ⟨rfl, rfl⟩, hlarge⟩⟩
    · exact .inl (Ordinarily.of_refuse rfl s hs)

-- With any other operator, arithmetic fails for the operator or for the operands.
theorem arithmetic_of_not {h : Heap} {op : TokenKind} {a b : Value} {s : Stop}
    (hop : op.isArithmetic = false) (hs : h.arithmetic op a b = .error s) :
    s.Ordinary ∨ s = .fault (.runtime (.unknownArithmetic op)) := by
  have hint : ∀ m n, intArithmetic op m n = refuse (.unknownArithmetic op) := by
    intro m n
    cases op <;> first | rfl | cases hop
  have hfloat : ∀ x y, floatArithmetic op x y = refuse (.unknownArithmetic op) := by
    intro x y
    cases op <;> first | rfl | cases hop
  unfold arithmetic at hs
  split at hs
  · rw [hint] at hs
    cases hs
    exact .inr rfl
  iterate 3
    rw [hfloat] at hs
    cases hs
    exact .inr rfl
  · split at hs
    iterate 6 cases hop
    cases hs
    exact .inl (Stop.ordinary_runtime rfl)

end Heap

namespace Builtin

theorem one_ordinarily (b : Builtin) (args : List Value) : Ordinarily (b.one args) := by
  unfold one
  split
  · exact .of_ok _
  · exact .of_refuse rfl

theorem two_ordinarily (b : Builtin) (args : List Value) : Ordinarily (b.two args) := by
  unfold two
  split
  · exact .of_ok _
  · exact .of_refuse rfl

theorem number_ordinarily (v : Value) : Ordinarily (number v) := by
  unfold number
  split
  · exact .of_ok _
  · exact .of_ok _
  · exact .of_ok _
  · split
    · exact .of_ok _
    · exact .of_refuse rfl
  · exact .of_refuse rfl

theorem length_ordinarily (h : Heap) (v : Value) : Ordinarily (length h v) := by
  cases v with
  | str s => exact .of_ok _
  | list ref => exact .of_ok _
  | dict ref => exact .of_ok _
  | _ => exact .of_refuse rfl

theorem listOf_ordinarily (b : Builtin) (v : Value) : Ordinarily (b.listOf v) := by
  cases v with
  | list ref => exact .of_ok _
  | _ => exact .of_refuse rfl

theorem addTo_ordinarily (total v : Value) : Ordinarily (addTo total v) := by
  unfold addTo
  split
  · exact exactly_ordinarily _
  · exact .bind (Value.asFloat_ordinarily _ _) fun _ =>
      .bind (Value.asFloat_ordinarily _ _) fun _ => .of_pure _

theorem total_ordinarily (items : List Value) : Ordinarily (total items) := by
  have hfold : ∀ v, Ordinarily (items.foldlM addTo v) := by
    induction items with
    | nil => exact fun v => .of_pure v
    | cons item rest ih => exact fun v => .bind (addTo_ordinarily v item) ih
  exact hfold _

theorem search_ordinarily (h : Heap) (v : Value) (items : List Value) :
    Ordinarily (search h v items) := by
  induction items with
  | nil => exact .of_ok _
  | cons item rest ih => exact .bind (h.equal_ordinarily item v) fun _ => .of_ite (.of_pure _) ih

theorem holds_ordinarily (h : Heap) (container v : Value) :
    Ordinarily (holds h container v) := by
  cases container with
  | dict ref => exact .of_ok _
  | list ref => exact search_ordinarily h v _
  | str s => exact .bind (v.asText_ordinarily _) fun _ => .of_pure _
  | _ => exact .of_refuse rfl

-- Sorting fails in ordinary ways, unless there is a value that stands in no order.
theorem sorted_error {items : List Value} {s : Stop} (hs : sorted items = .error s) :
    s.Ordinary ∨ s = .crash ∧ items.any isUnordered = true := by
  unfold sorted at hs
  split at hs
  · split at hs
    · next hunordered =>
      split at hs
      · cases hs
      · cases hs
        exact .inr ⟨rfl, hunordered⟩
    · cases hs
  · exact .inl (Ordinarily.of_refuse rfl s hs)

theorem pieces_ordinarily (args : List Value) : Ordinarily (pieces args) := by
  unfold pieces
  split
  · exact .bind (Value.asText_ordinarily _ _) fun _ => .of_pure _
  · refine .bind (Value.asText_ordinarily _ _) fun _ =>
      .bind (Value.asText_ordinarily _ _) fun separator => ?_
    split
    · exact .bind (.of_refuse rfl) fun _ => .of_pure _
    · exact .of_pure _
  · exact .of_refuse rfl

theorem power_ordinarily (base exponent : Value) : Ordinarily (power base exponent) := by
  have hfloats : Ordinarily (do
      let x ← base.asFloat "`pow` base"
      let y ← exponent.asFloat "`pow` exponent"
      return .float (x.pow y) : Except Stop Value) :=
    .bind (Value.asFloat_ordinarily _ _) fun _ =>
      .bind (Value.asFloat_ordinarily _ _) fun _ => .of_pure _
  unfold power
  split
  · exact .of_ite (exactly_ordinarily _) hfloats
  · exact hfloats

theorem root_ordinarily (v : Value) : Ordinarily (root v) := by
  refine .bind (Value.asFloat_ordinarily _ _) fun x => ?_
  split
  · exact .bind (.of_refuse rfl) fun _ => .of_pure _
  · exact .of_pure _

theorem exponential_ordinarily (v : Value) : Ordinarily (exponential v) :=
  .bind (Value.asFloat_ordinarily _ _) fun _ => .of_pure _

theorem terms_ordinarily (args : List Value) : Ordinarily (terms args) := by
  have hbound : ∀ v, Ordinarily (bound v) := Value.asInt_ordinarily _
  unfold terms
  split
  · exact .bind (hbound _) fun _ => .of_pure _
  · exact .bind (hbound _) fun _ => .bind (hbound _) fun _ => .of_pure _
  · refine .bind (hbound _) fun _ => .bind (hbound _) fun _ => .bind (hbound _) fun step => ?_
    split
    · exact .bind (.of_refuse rfl) fun _ => .of_pure _
    · exact .of_pure _
  · exact .of_refuse rfl

theorem draw_ordinarily (draws : Draws) (turn : Nat) (args : List Value) :
    Ordinarily (draw draws turn args) := by
  unfold draw
  split
  · exact .of_ok _
  · refine .bind (Value.asInt_ordinarily _ _) fun low =>
      .bind (Value.asInt_ordinarily _ _) fun high => ?_
    split
    · exact .of_pure _
    · exact .of_refuse rfl
  · exact .of_refuse rfl

end Builtin

end Parlance
