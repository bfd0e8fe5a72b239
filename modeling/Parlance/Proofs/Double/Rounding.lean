import Mathlib.Algebra.Order.Ring.Int
import Mathlib.Algebra.Order.Ring.Nat
import Mathlib.Tactic.Ring

namespace Parlance.Double

open Float.Model Float.Model.UnpackedFloat

-- A number without its `k` lowest bits, rounded to the nearest number and, between two, to the
-- even one.
def dropBits (n : Nat) : Nat → Nat
  | 0 => n
  | k + 1 =>
    n / 2 ^ (k + 1) +
      if n / 2 ^ k % 2 = 0 then 0 else if n % 2 ^ k = 0 then n / 2 ^ (k + 1) % 2 else 1

theorem div_two_pow_succ (n k : Nat) : n / 2 ^ (k + 1) = n / 2 ^ k / 2 := by
  rw [pow_succ, Nat.div_div_eq_div_mul]

theorem mod_two_pow_succ (n k : Nat) : n % 2 ^ (k + 1) = n % 2 ^ k + 2 ^ k * (n / 2 ^ k % 2) := by
  rw [pow_succ, Nat.mod_mul]

theorem log2_mul_two_pow {n : Nat} (h : n ≠ 0) (k : Nat) : (n * 2 ^ k).log2 = n.log2 + k := by
  induction k with
  | zero => rw [pow_zero, mul_one, Nat.add_zero]
  | succ k ih =>
    have hne : n * 2 ^ k ≠ 0 := Nat.mul_ne_zero h (Nat.two_pow_pos k).ne'
    rw [pow_succ, ← mul_assoc, mul_comm, Nat.log2_two_mul hne, ih, Nat.add_assoc]

-- Of the bits that are dropped the first one is kept apart, and the others are kept as one.
theorem shiftRight_succ (n k : Nat) :
    (⟨n, false, false⟩ : ExtendedMantissa) >>> (k + 1) =
      ⟨n / 2 ^ (k + 1), n / 2 ^ k % 2 != 0, n % 2 ^ k != 0⟩ := by
  induction k with
  | zero => simp [HShiftRight.hShiftRight, Nat.repeat, ExtendedMantissa.shiftRightOne, Nat.mod_one]
  | succ k ih =>
    have hstep : (⟨n, false, false⟩ : ExtendedMantissa) >>> (k + 1 + 1) =
        ((⟨n, false, false⟩ : ExtendedMantissa) >>> (k + 1)).shiftRightOne := rfl
    have hsticky : (n % 2 ^ (k + 1) != 0) = (n / 2 ^ k % 2 != 0 || n % 2 ^ k != 0) := by
      rw [mod_two_pow_succ, Bool.eq_iff_iff]
      rcases Nat.mod_two_eq_zero_or_one (n / 2 ^ k) with h | h <;> simp [h]
    rw [hstep, ih, ExtendedMantissa.shiftRightOne, hsticky, div_two_pow_succ n (k + 1)]

theorem roundedMantissa_mk (m : Nat) (round sticky : Bool) :
    (⟨m, round, sticky⟩ : ExtendedMantissa).roundedMantissa =
      m + if round = false then 0 else if sticky = false then m % 2 else 1 := by
  cases round <;> cases sticky <;> rfl

theorem roundedMantissa_shiftRight (n k : Nat) :
    ((⟨n, false, false⟩ : ExtendedMantissa) >>> k).roundedMantissa = dropBits n k := by
  cases k with
  | zero => rfl
  | succ k => simp only [shiftRight_succ, roundedMantissa_mk, bne_eq_false_iff_eq, dropBits]

theorem dropBits_mono {n m : Nat} (h : n ≤ m) (k : Nat) : dropBits n k ≤ dropBits m k := by
  cases k with
  | zero => exact h
  | succ k =>
    have hdiv : n / 2 ^ k ≤ m / 2 ^ k := Nat.div_le_div_right h
    have hmod : n / 2 ^ k = m / 2 ^ k → n % 2 ^ k ≤ m % 2 ^ k := by
      intro heq
      have hn := Nat.div_add_mod n (2 ^ k)
      have hm := Nat.div_add_mod m (2 ^ k)
      rw [heq] at hn
      omega
    simp only [dropBits, div_two_pow_succ]
    (repeat' split) <;> omega

theorem div_le_dropBits (n k : Nat) : n / 2 ^ k ≤ dropBits n k := by
  cases k with
  | zero => rw [pow_zero, Nat.div_one, dropBits]
  | succ k => exact Nat.le_add_right _ _

theorem dropBits_le (n k : Nat) : dropBits n k ≤ n / 2 ^ k + 1 := by
  cases k with
  | zero => rw [pow_zero, Nat.div_one, dropBits]; omega
  | succ k =>
    rw [dropBits]
    split
    · omega
    · split <;> omega

-- The number that the nearest double stands for: 53 bits are left, from the highest one on.
def nearest (n : Nat) : Nat :=
  dropBits n (n.log2 - 52) * 2 ^ (n.log2 - 52)

theorem dropBits_bounds {n k : Nat} (h : n.log2 = 52 + k) :
    2 ^ 52 ≤ dropBits n k ∧ dropBits n k ≤ 2 ^ 53 := by
  have hne : n ≠ 0 := by
    rintro rfl
    rw [Nat.log2_zero] at h
    omega
  have hlow : 2 ^ (52 + k) ≤ n := h ▸ Nat.log2_self_le hne
  have hhigh : n < 2 ^ (53 + k) := by
    have := Nat.lt_log2_self (n := n)
    rw [h] at this
    convert this using 2
    omega
  rw [pow_add] at hlow hhigh
  have hdiv := (Nat.le_div_iff_mul_le (Nat.two_pow_pos k)).mpr hlow
  have hlt := (Nat.div_lt_iff_lt_mul (Nat.two_pow_pos k)).mpr hhigh
  exact ⟨hdiv.trans (div_le_dropBits n k), (dropBits_le n k).trans hlt⟩

theorem nearest_of_log2_le {n : Nat} (h : n.log2 ≤ 52) : nearest n = n := by
  rw [nearest, Nat.sub_eq_zero_of_le h, dropBits, pow_zero, mul_one]

theorem nearest_of_le {n : Nat} (h : n ≤ 2 ^ 53) : nearest n = n := by
  by_cases hn : n = 0
  · subst hn
    rfl
  rcases Nat.lt_or_eq_of_le h with hlt | rfl
  · exact nearest_of_log2_le (Nat.le_of_lt_succ ((Nat.log2_lt hn).mpr hlt))
  · rw [nearest, Nat.log2_two_pow]
    rfl

-- A power of two above a number is not passed by rounding, and neither is one below it.
theorem nearest_le_two_pow (n : Nat) : nearest n ≤ 2 ^ (n.log2 + 1) := by
  rcases Nat.le_total n.log2 52 with hlog | hlog
  · rw [nearest_of_log2_le hlog]
    exact Nat.lt_log2_self.le
  · obtain ⟨k, hk⟩ := Nat.exists_eq_add_of_le hlog
    rw [nearest, hk, Nat.add_sub_cancel_left, Nat.add_right_comm, pow_add]
    exact Nat.mul_le_mul_right _ (dropBits_bounds hk).2

theorem two_pow_le_nearest {n : Nat} (h : n ≠ 0) : 2 ^ n.log2 ≤ nearest n := by
  rcases Nat.le_total n.log2 52 with hlog | hlog
  · rw [nearest_of_log2_le hlog]
    exact Nat.log2_self_le h
  · obtain ⟨k, hk⟩ := Nat.exists_eq_add_of_le hlog
    rw [nearest, hk, Nat.add_sub_cancel_left, pow_add]
    exact Nat.mul_le_mul_right _ (dropBits_bounds hk).1

theorem nearest_mono {n m : Nat} (h : n ≤ m) : nearest n ≤ nearest m := by
  by_cases hm : m = 0
  · subst hm
    rw [Nat.le_zero.mp h]
  rcases Nat.lt_trichotomy n.log2 m.log2 with hlog | hlog | hlog
  · calc nearest n ≤ 2 ^ (n.log2 + 1) := nearest_le_two_pow n
      _ ≤ 2 ^ m.log2 := Nat.pow_le_pow_right (by decide) hlog
      _ ≤ nearest m := two_pow_le_nearest hm
  · rw [nearest, nearest, hlog]
    exact Nat.mul_le_mul_right _ (dropBits_mono h _)
  · have hn : n ≠ 0 := by
      rintro rfl
      exact Nat.not_lt_zero _ hlog
    have hlt : n < 2 ^ n.log2 := calc
      n ≤ m := h
      _ < 2 ^ (m.log2 + 1) := Nat.lt_log2_self
      _ ≤ 2 ^ n.log2 := Nat.pow_le_pow_right (by decide) hlog
    exact absurd hlt (Nat.log2_self_le hn).not_gt

-- The nearest double of an integer is on the same side of zero.
def nearestInt (n : Int) : Int :=
  n.sign * nearest n.natAbs

theorem nearestInt_of_nonneg {n : Int} (h : 0 ≤ n) : nearestInt n = nearest n.natAbs := by
  rcases h.eq_or_lt with rfl | hpos
  · rfl
  · rw [nearestInt, Int.sign_eq_one_of_pos hpos, one_mul]

theorem nearestInt_of_nonpos {n : Int} (h : n ≤ 0) : nearestInt n = -nearest n.natAbs := by
  rcases h.eq_or_lt with rfl | hneg
  · rfl
  · rw [nearestInt, Int.sign_eq_neg_one_of_neg hneg, neg_one_mul]

theorem nearestInt_of_le {n : Int} (h : n.natAbs ≤ 2 ^ 53) : nearestInt n = n := by
  rw [nearestInt, nearest_of_le h, Int.sign_mul_natAbs]

theorem nearestInt_mono {a b : Int} (h : a ≤ b) : nearestInt a ≤ nearestInt b := by
  rcases Int.le_total 0 a with ha | ha
  · have hmono : nearest a.natAbs ≤ nearest b.natAbs := nearest_mono (by omega)
    rw [nearestInt_of_nonneg ha, nearestInt_of_nonneg (ha.trans h)]
    omega
  · rw [nearestInt_of_nonpos ha]
    rcases Int.le_total 0 b with hb | hb
    · rw [nearestInt_of_nonneg hb]
      omega
    · have hmono : nearest b.natAbs ≤ nearest a.natAbs := nearest_mono (by omega)
      rw [nearestInt_of_nonpos hb]
      omega

end Parlance.Double
