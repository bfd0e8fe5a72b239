import Parlance.Integer
import Parlance.Proofs.Double.Rounding
import Mathlib

namespace Parlance.Double

open Float.Model Float.Model.UnpackedFloat

-- What a double stands for in units of a 2 ^ 52nd part, if it is zero or has all its 53 bits.
inductive Stands : UnpackedFloat → Int → Prop
  | zero (s : Sign) : Stands (.zero s) 0
  | finite (s : Sign) {m j : Nat} (hpos : 0 < m) (hlow : 2 ^ 52 ≤ m) (hhigh : m < 2 ^ 53)
      (hj : j ≤ 64) : Stands (.finite s m ((j : Int) - 52) hpos) (s.apply (m * 2 ^ j : Nat))

-- The highest bit of a double is not written down.
theorem toNat_one_append {w : Nat} (b : BitVec w) : (1#1 ++ b).toNat = 2 ^ w + b.toNat := by
  rw [BitVec.toNat_append, ← Nat.shiftLeft_add_eq_or_of_lt b.isLt, Nat.shiftLeft_eq]
  simp

theorem toNat_exponent {j : Nat} (hj : j ≤ 64) :
    (BitVec.ofNat 11 (j + 1023)).toNat = j + 1023 := by
  rw [BitVec.toNat_ofNat]
  omega

theorem pack_finite (s : Sign) {m j : Nat} (hpos : 0 < m) (hlow : 2 ^ 52 ≤ m)
    (hhigh : m < 2 ^ 53) (hj : j ≤ 64) :
    UnpackedFloat.pack Format.binary64 (.finite s m ((j : Int) - 52) hpos) =
      packComponents Format.binary64 s (BitVec.ofNat 11 (j + 1023)) (BitVec.ofNat 52 m) := by
  have hlog : m.log2 + 1 = Format.binary64.mantissaBits := by
    rw [(Nat.log2_eq_iff (by omega)).mpr ⟨hlow, hhigh⟩]
    rfl
  have hbias : Format.binary64.exponentBias = 1023 := rfl
  have hexponent : ((j : Int) - 52 + (1023 : Nat) + (52 : Nat)).toNat = j + 1023 := by omega
  have hfits : ¬ 2 ^ 11 ≤ j + 1023 + 1 := by omega
  simp only [UnpackedFloat.pack, hbias, hexponent]
  rw [if_neg hfits, if_pos hlog]

theorem Stands.unpack_pack {f : UnpackedFloat} {v : Int} (h : Stands f v) :
    (Float.Model.pack f).unpack = f := by
  cases h with
  | zero s => cases s <;> rfl
  | @finite s m j hpos hlow hhigh hj =>
    have hexponent := toNat_exponent hj
    -- Exponents of all ones or all zeros mean something else.
    have hones : BitVec.ofNat 11 (j + 1023) ≠ -1#11 := by
      intro heq
      have hmax : (BitVec.ofNat 11 (j + 1023)).toNat = 2047 := by rw [heq]; rfl
      omega
    have hzeros : BitVec.ofNat 11 (j + 1023) ≠ 0#11 := by
      intro heq
      have hmin : (BitVec.ofNat 11 (j + 1023)).toNat = 0 := by rw [heq]; rfl
      omega
    have hmantissa : 2 ^ 52 + (BitVec.ofNat 52 m).toNat = m := by
      rw [BitVec.toNat_ofNat]
      omega
    have hbias : Format.binary64.exponentBias = 1023 := rfl
    rw [Float.Model.unpack, Float.Model.pack]
    simp only [pack_finite s hpos hlow hhigh hj, UnpackedFloat.unpack,
      unpackExponent_packComponents, unpackMantissa_packComponents, unpackSign_packComponents,
      Sign.ofBitVec_toBitVec]
    rw [if_neg hones, if_neg hzeros]
    simp only [UnpackedFloat.finite.injEq, toNat_one_append, hexponent, hmantissa, hbias, true_and]
    omega

-- Of two numbers of 53 bits, the one with more bits below them is the greater one.
theorem mul_two_pow_lt {m n j k : Nat} (hm : m < 2 ^ 53) (hn : 2 ^ 52 ≤ n) (h : j < k) :
    m * 2 ^ j < n * 2 ^ k :=
  calc m * 2 ^ j < 2 ^ 53 * 2 ^ j := Nat.mul_lt_mul_of_pos_right hm (Nat.two_pow_pos j)
    _ = 2 ^ 52 * 2 ^ (j + 1) := by ring
    _ ≤ 2 ^ 52 * 2 ^ k := Nat.mul_le_mul_left _ (Nat.pow_le_pow_right (by decide) h)
    _ ≤ n * 2 ^ k := Nat.mul_le_mul_right _ hn

theorem mul_two_pow_lt_iff {m n j k : Nat} (hlow : 2 ^ 52 ≤ m) (hhigh : m < 2 ^ 53)
    (hlow' : 2 ^ 52 ≤ n) (hhigh' : n < 2 ^ 53) :
    m * 2 ^ j < n * 2 ^ k ↔ j < k ∨ j = k ∧ m < n := by
  rcases Nat.lt_trichotomy j k with h | rfl | h
  · have := mul_two_pow_lt hhigh hlow' h
    omega
  · simp
  · have := mul_two_pow_lt hhigh' hlow h
    omega

theorem then_eq_lt_iff (e e' : Int) (m m' : Nat) :
    (compare e e').then (compare m m') = .lt ↔ e < e' ∨ e = e' ∧ m < m' := by
  simp only [Ordering.then_eq_lt, compare_lt_iff_lt, compare_eq_iff_eq]

theorem swap_then_eq_lt_iff (e e' : Int) (m m' : Nat) :
    ((compare e e').then (compare m m')).swap = .lt ↔ e' < e ∨ e = e' ∧ m' < m := by
  simp only [Ordering.swap_eq_lt, Ordering.then_eq_gt, compare_gt_iff_gt, compare_eq_iff_eq]

-- Doubles are compared by what they stand for.
theorem Stands.lt_iff {f g : UnpackedFloat} {v w : Int} (hf : Stands f v) (hg : Stands g w) :
    f.lt g = true ↔ v < w := by
  rw [UnpackedFloat.lt, beq_iff_eq]
  cases hf with
  | zero s =>
    cases hg with
    | zero t => simp [UnpackedFloat.compare]
    | @finite t m j hpos =>
      have hw : 0 < m * 2 ^ j := Nat.mul_pos hpos (Nat.two_pow_pos j)
      cases t <;> simp only [UnpackedFloat.compare, Sign.apply, Option.some.injEq, reduceCtorEq,
        true_iff, false_iff] <;> omega
  | @finite s m j hpos hlow hhigh hj =>
    have hv : 0 < m * 2 ^ j := Nat.mul_pos hpos (Nat.two_pow_pos j)
    cases hg with
    | zero t =>
      cases s <;> simp only [UnpackedFloat.compare, Sign.apply, Option.some.injEq, reduceCtorEq,
        true_iff, false_iff] <;> omega
    | @finite t m' j' hpos' hlow' hhigh' hj' =>
      have hw : 0 < m' * 2 ^ j' := Nat.mul_pos hpos' (Nat.two_pow_pos j')
      have hless := mul_two_pow_lt_iff hlow hhigh hlow' hhigh' (j := j) (k := j')
      have hmore := mul_two_pow_lt_iff hlow' hhigh' hlow hhigh (j := j') (k := j)
      cases s <;> cases t <;> simp only [UnpackedFloat.compare, Sign.apply, Option.some.injEq,
        reduceCtorEq, true_iff, false_iff, then_eq_lt_iff, swap_then_eq_lt_iff] <;> omega

theorem targetExponent_eq {m : Nat} {e : Int} (h : -1074 ≤ m.log2 + e - 52) :
    Format.binary64.targetExponent (totalExponent m e) = m.log2 + e - 52 := by
  have hbits : Format.binary64.mantissaBits = 53 := rfl
  have hmin : Format.binary64.minExponent = -1074 := rfl
  rw [Format.targetExponent, totalExponent, hbits, hmin]
  omega

theorem shiftToTargetExponent_of_log2 {m k : Nat} (h : m.log2 = 52 + k) (j : Nat) :
    shiftToTargetExponent Format.binary64 m ((j : Int) - 52) .exact =
      ((⟨m, false, false⟩ : ExtendedMantissa) >>> k, ((j + k : Nat) : Int) - 52) := by
  have hamount : ((m.log2 : Int) + (j - 52) - 52 - (j - 52)).toNat = k := by omega
  rw [shiftToTargetExponent, targetExponent_eq (by omega), shiftToExponent, hamount]
  congr 1
  omega

-- Rounding can lead to one bit more, which is then dropped.
theorem stands_roundWithAccuracy (s : Sign) {m k j : Nat} (h : m.log2 = 52 + k)
    (hj : j + k < 64) :
    Stands (roundWithAccuracy Format.binary64 s m ((j : Int) - 52) .exact)
      (s.apply (dropBits m k * 2 ^ (j + k) : Nat)) := by
  obtain ⟨hlow, hhigh⟩ := dropBits_bounds h
  simp only [roundWithAccuracy, shiftToTargetExponent_of_log2 h, roundedMantissa_shiftRight]
  rcases Nat.lt_or_eq_of_le hhigh with hlt | heq
  · have hlog : (dropBits m k).log2 = 52 + 0 := (Nat.log2_eq_iff (by omega)).mpr ⟨hlow, hlt⟩
    have hshift : (⟨dropBits m k, false, false⟩ : ExtendedMantissa) >>> 0 =
        ⟨dropBits m k, false, false⟩ := rfl
    simp only [shiftToTargetExponent_of_log2 hlog, hshift, Nat.add_zero]
    rw [dif_neg (by omega)]
    exact .finite s _ hlow hlt (by omega)
  · have hlog : (2 ^ 53).log2 = 52 + 1 := Nat.log2_two_pow
    have hshift : ((⟨2 ^ 53, false, false⟩ : ExtendedMantissa) >>> 1).mantissa = 2 ^ 52 := rfl
    have hcarry : 2 ^ 53 * 2 ^ (j + k) = 2 ^ 52 * 2 ^ (j + k + 1) := by ring
    simp only [heq, shiftToTargetExponent_of_log2 hlog, hshift, hcarry]
    rw [dif_neg (by decide)]
    exact .finite s _ le_rfl (by decide) (by omega)

-- A number is first given 53 bits, if it has fewer.
theorem stands_round (s : Sign) {n : Nat} (hpos : n ≠ 0) (h : n.log2 < 64) :
    Stands (UnpackedFloat.round Format.binary64 s n 0) (s.apply (nearest n * 2 ^ 52 : Nat)) := by
  rw [UnpackedFloat.round, targetExponent_eq (by omega), Int.add_zero]
  simp only [decreaseExponent, Nat.shiftLeft_eq]
  rcases Nat.le_total n.log2 52 with hlog | hlog
  · obtain ⟨i, hi⟩ := Nat.exists_eq_add_of_le hlog
    have hamount : ((0 : Int) - ((n.log2 : Int) - 52)).toNat = i := by omega
    have hexponent : (0 : Int) - (i : Int) = (n.log2 : Int) - 52 := by omega
    have hfull : (n * 2 ^ i).log2 = 52 + 0 := by rw [log2_mul_two_pow hpos, ← hi]
    have hvalue : nearest n * 2 ^ 52 = dropBits (n * 2 ^ i) 0 * 2 ^ (n.log2 + 0) := by
      rw [nearest_of_log2_le hlog, dropBits, hi]
      ring
    rw [hamount, hexponent, hvalue]
    exact stands_roundWithAccuracy s hfull (by omega)
  · obtain ⟨k, hk⟩ := Nat.exists_eq_add_of_le hlog
    have hamount : ((0 : Int) - ((n.log2 : Int) - 52)).toNat = 0 := by omega
    have hexponent : (0 : Int) - ((0 : Nat) : Int) = ((52 : Nat) : Int) - 52 := rfl
    have hvalue : nearest n * 2 ^ 52 = dropBits n k * 2 ^ (52 + k) := by
      rw [nearest, hk, Nat.add_sub_cancel_left]
      ring
    rw [hamount, pow_zero, mul_one, hexponent, hvalue]
    exact stands_roundWithAccuracy s hk (by omega)

theorem stands_ofInt {n : Int} (h : n.natAbs < 2 ^ 64) :
    Stands (UnpackedFloat.ofInt Format.binary64 n) (nearestInt n * 2 ^ 52) := by
  rw [UnpackedFloat.ofInt, UnpackedFloat.normalize]
  rcases Int.lt_trichotomy n 0 with hn | rfl | hn
  · have habs : (-n).toNat = n.natAbs := by omega
    have hround := stands_round .negative (n := n.natAbs) (by omega)
      ((Nat.log2_lt (by omega)).mpr h)
    rw [compare_lt_iff_lt.mpr hn, nearestInt_of_nonpos hn.le, habs, neg_mul]
    exact_mod_cast hround
  · exact .zero .positive
  · have habs : n.toNat = n.natAbs := by omega
    have hround := stands_round .positive (n := n.natAbs) (by omega)
      ((Nat.log2_lt (by omega)).mpr h)
    rw [compare_gt_iff_gt.mpr hn, nearestInt_of_nonneg hn.le, habs]
    exact_mod_cast hround

end Parlance.Double

namespace Parlance.Integer

open Double Float.Model

-- Integers are compared as doubles by the nearest of them.
theorem toFloat_lt_iff {a b : Int64} :
    toFloat a < toFloat b ↔ nearestInt a.toInt < nearestInt b.toInt := by
  have hstands : ∀ n : Int64, Stands (UnpackedFloat.ofInt64 Format.binary64 n)
      (nearestInt n.toInt * 2 ^ 52) := by
    intro n
    have hlow := n.le_toInt
    have hhigh := n.toInt_lt
    exact stands_ofInt (by omega)
  calc toFloat a < toFloat b
      ↔ (pack (UnpackedFloat.ofInt64 Format.binary64 a)).unpack.lt
          (pack (UnpackedFloat.ofInt64 Format.binary64 b)).unpack = true := decide_eq_true_iff
    _ ↔ nearestInt a.toInt * 2 ^ 52 < nearestInt b.toInt * 2 ^ 52 := by
      rw [(hstands a).unpack_pack, (hstands b).unpack_pack, (hstands a).lt_iff (hstands b)]
    _ ↔ nearestInt a.toInt < nearestInt b.toInt := by omega

end Parlance.Integer
