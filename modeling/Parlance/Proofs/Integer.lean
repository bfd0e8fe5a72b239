import Parlance.Integer

namespace Parlance.Integer

-- The integers of 64 bits among all integers.
def InRange (n : Int) : Prop :=
  least ≤ n ∧ n ≤ greatest

instance (n : Int) : Decidable (InRange n) :=
  inferInstanceAs (Decidable (_ ∧ _))

theorem inRange_toInt (a : Int64) : InRange a.toInt := by
  have hlo := a.le_toInt
  have hhi := a.toInt_lt
  unfold InRange least greatest
  omega

theorem toInt_ofInt {n : Int} (h : InRange n) : (Int64.ofInt n).toInt = n := by
  unfold InRange least greatest at h
  exact Int64.toInt_ofInt_of_le (by omega) (by omega)

theorem ofInt?_of_inRange {n : Int} (h : InRange n) : ofInt? n = some (Int64.ofInt n) :=
  if_pos h

theorem ofInt?_of_not_inRange {n : Int} (h : ¬ InRange n) : ofInt? n = none :=
  if_neg h

theorem not_inRange_of_ofInt? {n : Int} (h : ofInt? n = none) : ¬ InRange n := by
  intro hn
  rw [ofInt?_of_inRange hn] at h
  cases h

theorem tmod_nonpos {a : Int} (b : Int) (ha : a ≤ 0) : a.tmod b ≤ 0 := by
  have hneg := Int.tmod_nonneg b (Int.neg_nonneg_of_nonpos ha)
  rw [Int.neg_tmod] at hneg
  omega

theorem natAbs_tmod_lt (a : Int) {b : Int} (hb : b ≠ 0) : (a.tmod b).natAbs < b.natAbs := by
  rw [Int.natAbs_tmod]
  exact Nat.mod_lt _ (by omega)

-- A remainder that has not the sign of the divisor is off by one divisor.
theorem fmod_eq_correction (a : Int) {b : Int} (hb : b ≠ 0) :
    a.fmod b = if a.tmod b ≠ 0 ∧ (a.tmod b < 0 ↔ 0 < b) then a.tmod b + b else a.tmod b := by
  have hsmall := natAbs_tmod_lt a hb
  rw [Int.fmod_eq_tmod]
  by_cases hdvd : b ∣ a
  · have hzero := Int.tmod_eq_zero_of_dvd hdvd
    simp [hdvd, hzero]
  · have hnonzero : a.tmod b ≠ 0 := fun h => hdvd (Int.dvd_of_tmod_eq_zero h)
    rw [if_neg hdvd]
    by_cases ha : 0 ≤ a
    · have hsign := Int.tmod_nonneg b ha
      rw [if_pos ha]
      split <;> split <;> omega
    · have hsign := tmod_nonpos b (Int.le_of_not_le ha)
      rw [if_neg ha]
      split <;> split <;> omega

-- A remainder is zero or has the sign of the divisor, and is nearer to zero than it.
theorem fmod_bounds (a : Int) {b : Int} (hb : b ≠ 0) :
    (a.fmod b = 0 ∨ (0 < a.fmod b ↔ 0 < b)) ∧ (a.fmod b).natAbs < b.natAbs ∧
      b ∣ a - a.fmod b := by
  have hsmall := natAbs_tmod_lt a hb
  refine ⟨?_, ?_, Int.dvd_self_sub_fmod⟩
  · rw [fmod_eq_correction a hb]
    split <;> omega
  · rw [fmod_eq_correction a hb]
    split <;> omega

theorem inRange_fmod (a : Int) {b : Int64} (hb : b.toInt ≠ 0) : InRange (a.fmod b.toInt) := by
  obtain ⟨hsign, hsmall, -⟩ := fmod_bounds a hb
  have hrange := inRange_toInt b
  unfold InRange least greatest at *
  omega

-- The correction of a remainder never leaves the range.
theorem mod?_eq (a : Int64) {b : Int64} (hb : b.toInt ≠ 0) :
    mod? a b =
      if a.toInt = least ∧ b.toInt = -1 then none
      else some (Int64.ofInt (a.toInt.fmod b.toInt)) := by
  unfold mod? rem?
  split
  · rfl
  · have hrem : (a % b).toInt = a.toInt.tmod b.toInt := Int64.toInt_mod a b
    have hsum : a % b + b = Int64.ofInt (a.toInt.tmod b.toInt + b.toInt) := by
      rw [Int64.ofInt_add, ← hrem, Int64.ofInt_toInt, Int64.ofInt_toInt]
    have hcondition : ((a % b != 0) && decide (a % b < 0) != decide (b < 0)) = true ↔
        a.toInt.tmod b.toInt ≠ 0 ∧ (a.toInt.tmod b.toInt < 0 ↔ 0 < b.toInt) := by
      simp only [Bool.and_eq_true, bne_iff_ne, ne_eq, ← Int64.toInt_inj, Int64.lt_iff_toInt_lt,
        Int64.toInt_zero, hrem, decide_eq_decide]
      omega
    rw [Option.map_some, fmod_eq_correction _ hb]
    by_cases h : a.toInt.tmod b.toInt ≠ 0 ∧ (a.toInt.tmod b.toInt < 0 ↔ 0 < b.toInt)
    · rw [if_pos (hcondition.mpr h), if_pos h, hsum]
    · rw [if_neg (mt hcondition.mp h), if_neg h, ← hrem, Int64.ofInt_toInt]

end Parlance.Integer
