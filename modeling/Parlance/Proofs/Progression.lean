import Mathlib.Data.Rat.Floor
import Parlance.Eval.Builtin
import Parlance.Proofs.Integer

namespace Parlance

namespace Builtin

-- A number that comes before the end of a progression, in the direction of its steps.
def Precedes (stop step n : Int) : Prop :=
  0 < step ∧ n < stop ∨ step < 0 ∧ stop < n

theorem before_iff {stop step current : Int64} :
    Before stop step current ↔ Precedes stop.toInt step.toInt current.toInt := by
  simp only [Before, Precedes, Int64.lt_iff_toInt_lt, Int64.toInt_zero]

-- The number of terms before the end.
def termCount (start stop step : Int) : Nat :=
  ⌈((stop - start : Int) : ℚ) / step⌉.toNat

-- As many terms as the quotient says come before the end, and no more.
theorem lt_termCount_iff (start stop : Int) {step : Int} (hstep : step ≠ 0) (i : Nat) :
    i < termCount start stop step ↔ Precedes stop step (start + i * step) := by
  have hlt : i < termCount start stop step ↔ (i : ℚ) < ((stop - start : Int) : ℚ) / step := by
    rw [termCount, Int.lt_toNat, Int.lt_ceil, Int.cast_natCast]
  rw [hlt, Precedes]
  rcases lt_or_gt_of_ne hstep with hdown | hup
  · have hcast : (step : ℚ) < 0 := by exact_mod_cast hdown
    rw [lt_div_iff_of_neg hcast]
    have hint : ((stop - start : Int) : ℚ) < i * step ↔ stop - start < i * step := by
      exact_mod_cast Iff.rfl
    rw [hint]
    omega
  · have hcast : (0 : ℚ) < step := by exact_mod_cast hup
    rw [lt_div_iff₀ hcast]
    have hint : (i * step : ℚ) < ((stop - start : Int) : ℚ) ↔ i * step < stop - start := by
      exact_mod_cast Iff.rfl
    rw [hint]
    omega

section

variable {start stop step : Int} (hstep : step ≠ 0)

include hstep

theorem termCount_of_not_precedes (h : ¬ Precedes stop step start) :
    termCount start stop step = 0 := by
  have hfirst := lt_termCount_iff start stop hstep 0
  simp only [Nat.cast_zero, zero_mul, add_zero] at hfirst
  have hnone : ¬ 0 < termCount start stop step := fun hpos => h (hfirst.mp hpos)
  omega

-- The first term is one more than those that follow it.
theorem termCount_of_precedes (h : Precedes stop step start) :
    termCount start stop step = termCount (start + step) stop step + 1 := by
  have hfirst := lt_termCount_iff start stop hstep 0
  simp only [Nat.cast_zero, zero_mul, add_zero] at hfirst
  have hpos : 0 < termCount start stop step := hfirst.mpr h
  have hnext : ∀ i, i < termCount (start + step) stop step ↔
      i + 1 < termCount start stop step := by
    intro i
    rw [lt_termCount_iff _ _ hstep, lt_termCount_iff _ _ hstep]
    have hterm : start + step + i * step = start + (i + 1 : Nat) * step := by
      push_cast
      ring
    rw [hterm]
  have hlast := hnext (termCount (start + step) stop step)
  have hprevious := hnext (termCount start stop step - 1)
  omega

end

-- The terms before the end, in unbounded integers.
def exactTerms (start stop step : Int) : List Int :=
  (List.range (termCount start stop step)).map fun (i : Nat) => start + i * step

theorem exactTerms_of_not_precedes {start stop step : Int} (hstep : step ≠ 0)
    (h : ¬ Precedes stop step start) : exactTerms start stop step = [] := by
  rw [exactTerms, termCount_of_not_precedes hstep h, List.range_zero, List.map_nil]

theorem exactTerms_of_precedes {start stop step : Int} (hstep : step ≠ 0)
    (h : Precedes stop step start) :
    exactTerms start stop step = start :: exactTerms (start + step) stop step := by
  rw [exactTerms, termCount_of_precedes hstep h, List.range_succ_eq_map, List.map_cons,
    List.map_map, exactTerms]
  congr 1
  · simp
  · apply List.map_congr_left
    intro i _
    simp only [Function.comp_apply, Nat.succ_eq_add_one]
    push_cast
    ring

-- A step that leaves the range of 64 bits leads beyond every end.
theorem not_precedes_of_overflow (stop : Int64) {step current : Int64}
    (hnext : Integer.add? current step = none) :
    ¬ Precedes stop.toInt step.toInt (current.toInt + step.toInt) := by
  have hout := Integer.not_inRange_of_ofInt? hnext
  have hstop := Integer.inRange_toInt stop
  have hcurrent := Integer.inRange_toInt current
  unfold Precedes at *
  unfold Integer.InRange at *
  omega

-- The loop adds exactly the terms from the current one on. Where it ends before the end is
-- reached, there are no further terms.
theorem termsFrom_eq (stop : Int64) {step : Int64} (hstep : step.toInt ≠ 0) (current : Int64)
    (terms : Array Value) :
    ∃ ns : List Int64, termsFrom stop step current terms = terms ++ (ns.map Value.int).toArray ∧
      ns.map Int64.toInt = exactTerms current.toInt stop.toInt step.toInt := by
  fun_induction termsFrom stop step current terms with
  | case1 current terms hbefore next hnext ih =>
    obtain ⟨ns, hterms, hexact⟩ := ih
    have hsum : next.toInt = current.toInt + step.toInt := Integer.toInt_of_ofInt? hnext
    refine ⟨current :: ns, ?_, ?_⟩
    · rw [hterms]
      simp
    · rw [exactTerms_of_precedes hstep (before_iff.mp hbefore), ← hsum, ← hexact, List.map_cons]
  | case2 current terms hbefore hnext =>
    have hprecedes := before_iff.mp hbefore
    have hlast := not_precedes_of_overflow stop hnext
    refine ⟨[current], by simp, ?_⟩
    rw [exactTerms_of_precedes hstep hprecedes, exactTerms_of_not_precedes hstep hlast,
      List.map_cons, List.map_nil]
  | case3 current terms hend =>
    refine ⟨[], by simp, ?_⟩
    rw [exactTerms_of_not_precedes hstep (mt before_iff.mpr hend), List.map_nil]

theorem terms_eq {start stop step : Int64} (hstep : step ≠ 0) :
    terms [.int start, .int stop, .int step] = .ok (progression start stop step) := by
  simp [terms, bound, Value.asInt, hstep, bind, Except.bind, pure, Except.pure]

-- A width that is left out is one, and a start that is left out is zero.
theorem terms_of_two (a b : Value) : terms [a, b] = terms [a, b, .int 1] := by
  simp only [terms, bound, Value.asInt, bind, Except.bind]
  rfl

theorem terms_of_one (b : Value) : terms [b] = terms [.int 0, b, .int 1] := by
  simp only [terms, bound, Value.asInt, bind, Except.bind]
  rfl

end Builtin

open Builtin

-- A range is a new list of exactly those terms that come before its end, however near the ends
-- of 64 bits they are.
theorem range_is_exact (ev : Evaluators) (env : Nat) (w : World) (start stop : Int64)
    {step : Int64} (hstep : step ≠ 0) :
    (∃ ns : List Int64,
      Eval.builtin ev env [.int start, .int stop, .int step] .range w =
        .ok (.list w.heap.lists.size)
          { w with heap := { w.heap with lists := w.heap.lists.push (ns.map .int).toArray } } ∧
      ns.map Int64.toInt =
        (List.range ns.length).map (fun (i : Nat) => start.toInt + i * step.toInt) ∧
      (∀ i : Nat, i < ns.length ↔
        0 < step.toInt ∧ start.toInt + i * step.toInt < stop.toInt ∨
          step.toInt < 0 ∧ stop.toInt < start.toInt + i * step.toInt) ∧
      (ns.length : Int) = max 0 ⌈((stop.toInt - start.toInt : Int) : ℚ) / step.toInt⌉) ∧
    (∀ a b, Eval.builtin ev env [a, b] .range = Eval.builtin ev env [a, b, .int 1] .range) ∧
    (∀ b, Eval.builtin ev env [b] .range = Eval.builtin ev env [.int 0, b, .int 1] .range) := by
  have hnonzero : step.toInt ≠ 0 := fun h => hstep (Int64.toInt_inj.mp h)
  obtain ⟨ns, hterms, hexact⟩ := termsFrom_eq stop hnonzero start #[]
  have hlength : ns.length = termCount start.toInt stop.toInt step.toInt := by
    simpa [exactTerms] using congrArg List.length hexact
  refine ⟨⟨ns, ?_, ?_, ?_, ?_⟩, ?_, ?_⟩
  · have hresult : terms [.int start, .int stop, .int step] = .ok (ns.map .int).toArray := by
      rw [terms_eq hstep, progression, hterms, Array.empty_append]
    unfold Eval.builtin
    rw [hresult]
    rfl
  · rw [hexact, exactTerms, hlength]
  · intro i
    rw [hlength]
    exact lt_termCount_iff _ _ hnonzero i
  · rw [hlength, termCount, Int.toNat_eq_max, max_comm]
  · intro a b
    unfold Eval.builtin
    rw [terms_of_two]
  · intro b
    unfold Eval.builtin
    rw [terms_of_one]

-- Steps of five up to the greatest integer: after the second term there is no room for a third.
theorem range_is_exact_at_greatest :
    (5 : Int64) ≠ 0 ∧
      ∀ ev env w, ∃ ns : List Int64,
        Eval.builtin ev env
            [.int 9223372036854775800, .int 9223372036854775807, .int 5] .range w =
          .ok (.list w.heap.lists.size)
            { w with heap := { w.heap with lists := w.heap.lists.push (ns.map .int).toArray } } ∧
        ns.map Int64.toInt = [9223372036854775800, 9223372036854775805] := by
  refine ⟨by decide, fun ev env w => ?_⟩
  obtain ⟨⟨ns, hrun, hterms, hlength, -⟩, -⟩ := range_is_exact ev env w
    9223372036854775800 9223372036854775807 (by decide : (5 : Int64) ≠ 0)
  have htwo : ns.length = 2 := by
    have hone := (hlength 1).mpr (by decide)
    have hnotTwo := mt (hlength 2).mp (by decide)
    omega
  refine ⟨ns, hrun, ?_⟩
  rw [hterms, htwo]
  decide

end Parlance
