import Parlance.Decimal.Reading
import Parlance.Proofs.Integer
import Parlance.Text.Space

namespace Parlance

namespace Decimal

-- Digits end where something else or nothing follows.
theorem takeWhile_isDigit_append {ds : List Char} (rest : List Char)
    (hds : ds.all Char.isDigit = true) (hrest : ∀ c ∈ rest.head?, c.isDigit = false) :
    (ds ++ rest).takeWhile Char.isDigit = ds ∧ (ds ++ rest).dropWhile Char.isDigit = rest := by
  rw [List.all_eq_true] at hds
  rw [List.takeWhile_append_of_pos hds, List.dropWhile_append_of_pos hds]
  cases rest with
  | nil => simp
  | cons c rest => simp [hrest c rfl]

-- A number without sign and exponent: digits, perhaps with a point before, between or
-- behind them.
inductive Unsigned : List Char → Prop where
  | whole {ds : List Char} (hds : ds.all Char.isDigit = true) (hne : ds ≠ []) : Unsigned ds
  | point {ds fs : List Char} (hds : ds.all Char.isDigit = true)
      (hfs : fs.all Char.isDigit = true) (hne : ds ++ fs ≠ []) : Unsigned (ds ++ '.' :: fs)

variable {cs : List Char} {s : String}

theorem Unsigned.isSome_decimal? (h : Unsigned cs) : (decimal? cs).isSome = true := by
  cases h with
  | whole hds hne =>
    obtain ⟨htake, hdrop⟩ := takeWhile_isDigit_append [] hds (by simp)
    rw [List.append_nil] at htake hdrop
    simp [decimal?, htake, hdrop, hne, exponent?]
  | @point ds fs hds hfs hne =>
    obtain ⟨htake, hdrop⟩ := takeWhile_isDigit_append ('.' :: fs) hds (by simp)
    obtain ⟨htake', hdrop'⟩ := takeWhile_isDigit_append [] hfs (by simp)
    rw [List.append_nil] at htake' hdrop'
    have hnone : ds = [] → fs ≠ [] := by simpa using hne
    simpa [decimal?, htake, hdrop, htake', hdrop', exponent?] using hnone

theorem splitSign_of_head (h : ∀ c ∈ cs.head?, c ≠ '-' ∧ c ≠ '+') :
    splitSign cs = (false, cs) := by
  unfold splitSign
  split
  · cases (h '-' rfl).1 rfl
  · cases (h '+' rfl).2 rfl
  · rfl

theorem ne_sign_of_isDigit {c : Char} (h : c.isDigit = true) : c ≠ '-' ∧ c ≠ '+' := by
  constructor <;> rintro rfl <;> cases h

theorem splitSign_of_digits (h : cs.all Char.isDigit = true) : splitSign cs = (false, cs) :=
  splitSign_of_head fun c hc =>
    ne_sign_of_isDigit (List.all_eq_true.mp h c (List.mem_of_mem_head? hc))

theorem Unsigned.splitSign_eq (h : Unsigned cs) : splitSign cs = (false, cs) := by
  cases h with
  | whole hds => exact splitSign_of_digits hds
  | @point ds fs hds =>
    refine splitSign_of_head fun c hc => ?_
    cases ds with
    | nil =>
      cases hc
      decide
    | cons d ds =>
      cases hc
      exact ne_sign_of_isDigit (List.all_eq_true.mp hds _ List.mem_cons_self)

theorem isSome_float? (h : Unsigned (splitSign s.toList).2) : (float? s).isSome = true := by
  have hdecimal := h.isSome_decimal?
  simp [float?, hdecimal]

theorem unsigned_of_int? (h : (int? s).isSome = true) : Unsigned (splitSign s.toList).2 := by
  simp only [int?] at h
  split at h
  · next hdigits =>
    rw [Bool.and_eq_true] at hdigits
    exact .whole hdigits.2 (by simpa using hdigits.1)
  · cases h

theorem ofDigits_toDigits (n : Nat) : ofDigits (Nat.toDigits 10 n) = n := by
  have h := Nat.ofDigitChars_ten_toDigits (n := n)
  rwa [Nat.ofDigitChars_eq_foldl] at h

theorem toDigits_all_isDigit (n : Nat) : (Nat.toDigits 10 n).all Char.isDigit = true :=
  List.all_eq_true.mpr fun _ => Nat.isDigit_of_mem_toDigits (by decide) (by decide)

theorem toList_toString (n : Int) :
    (toString n).toList =
      if n < 0 then '-' :: Nat.toDigits 10 n.natAbs else Nat.toDigits 10 n.natAbs := by
  rw [Int.toString_eq_repr, Int.repr_eq_if]
  split
  · rw [if_neg (by omega), Nat.toList_repr, show n.toNat = n.natAbs by omega]
  · rw [if_pos (by omega), String.toList_append, Nat.toList_repr,
      show (-n).toNat = n.natAbs by omega]
    rfl

theorem splitSign_toString (n : Int) :
    splitSign (toString n).toList = (decide (n < 0), Nat.toDigits 10 n.natAbs) := by
  rw [toList_toString]
  split
  · next h => simp [splitSign, h]
  · next h => simp [splitSign_of_digits (toDigits_all_isDigit _), h]

-- What is written for an integer is read back as this integer, at both limits too, where the
-- digits alone may be out of range and only the sign brings them back.
theorem int?_toString (n : Int64) : int? (toString n.toInt) = some n := by
  have hdigits : (!(Nat.toDigits 10 n.toInt.natAbs).isEmpty &&
      (Nat.toDigits 10 n.toInt.natAbs).all Char.isDigit) = true := by
    simp [toDigits_all_isDigit, Nat.toDigits_ne_nil]
  have hsigned : (if n.toInt < 0 then -(n.toInt.natAbs : Int) else n.toInt.natAbs) = n.toInt := by
    split <;> omega
  simp only [int?, splitSign_toString, hdigits, if_true, ofDigits_toDigits, decide_eq_true_eq]
  rw [hsigned, Integer.ofInt?_of_inRange (Integer.inRange_toInt n), Int64.ofInt_toInt]

end Decimal

namespace Text

theorem trimStart_eq_self {cs : List Char} (h : ∀ c ∈ cs, isSpace c = false) :
    trimStart cs = cs := by
  cases cs with
  | nil => rfl
  | cons c cs => simp [trimStart, h c]

theorem trim_eq_self {s : String} (h : ∀ c ∈ s.toList, isSpace c = false) : trim s = s := by
  rw [trim, trimStart_eq_self h, trimEnd, trimStart_eq_self (by simpa using h),
    List.reverse_reverse, String.ofList_toList]

theorem isSpace_of_isDigit {c : Char} (h : c.isDigit = true) : isSpace c = false := by
  simp only [Char.isDigit, Bool.and_eq_true, decide_eq_true_eq, UInt32.le_iff_toNat_le] at h
  have hlo : 48 ≤ c.toNat := h.1
  have hhi : c.toNat ≤ 57 := h.2
  simp [isSpace]
  omega

theorem trim_toString (n : Int) : trim (toString n) = toString n := by
  have hdigit : ∀ c ∈ Nat.toDigits 10 n.natAbs, isSpace c = false := fun c hc =>
    isSpace_of_isDigit (List.all_eq_true.mp (Decimal.toDigits_all_isDigit _) c hc)
  refine trim_eq_self fun c hc => ?_
  rw [Decimal.toList_toString] at hc
  split at hc
  · rcases List.mem_cons.mp hc with rfl | hc
    · decide
    · exact hdigit c hc
  · exact hdigit c hc

end Text

end Parlance
