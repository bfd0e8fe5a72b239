import Parlance.Decimal.Layout
import Parlance.Proofs.Text.Splitting
import Parlance.Text.Lowercase
import Parlance.Text.Search
import Parlance.Text.Space

namespace Parlance

-- A text that has no line end in it.
def Unbroken (s : String) : Prop :=
  '\n' ∉ s.toList

instance (s : String) : Decidable (Unbroken s) :=
  inferInstanceAs (Decidable ('\n' ∉ s.toList))

@[simp]
theorem unbroken_append (s t : String) : Unbroken (s ++ t) ↔ Unbroken s ∧ Unbroken t := by
  simp [Unbroken]

@[simp]
theorem unbroken_ofList (cs : List Char) : Unbroken (String.ofList cs) ↔ '\n' ∉ cs := by
  simp [Unbroken]

theorem unbroken_empty : Unbroken "" := by
  decide

-- What is made of characters of a text has no line end if the text has none.
theorem Unbroken.ofList {s : String} {cs : List Char} (h : Unbroken s)
    (hcs : ∀ c ∈ cs, c ∈ s.toList) : Unbroken (String.ofList cs) :=
  (unbroken_ofList cs).mpr fun hmem => h (hcs _ hmem)

theorem unbroken_intercalate {separator : String} (hseparator : Unbroken separator)
    {parts : List String} (h : ∀ s ∈ parts, Unbroken s) :
    Unbroken (separator.intercalate parts) := by
  induction parts with
  | nil => exact unbroken_empty
  | cons s rest ih =>
    obtain ⟨hs, hrest⟩ := List.forall_mem_cons.mp h
    cases rest with
    | nil => simpa using hs
    | cons t rest =>
      rw [String.intercalate_cons_cons]
      simp [hs, hseparator, ih hrest]

theorem digits_unbroken (n : Nat) : '\n' ∉ Nat.toDigits 10 n := by
  intro h
  exact absurd (Nat.isDigit_of_mem_toDigits (by decide) (by decide) h) (by decide)

@[simp]
theorem unbroken_nat (n : Nat) : Unbroken n.repr :=
  (unbroken_ofList _).mpr (digits_unbroken n)

@[simp]
theorem unbroken_int (n : Int) : Unbroken n.repr := by
  rw [Int.repr_eq_if]
  split
  · exact unbroken_nat _
  · exact (unbroken_append _ _).mpr ⟨by decide, unbroken_nat _⟩

namespace Text

theorem linesFrom_unbroken {current cs : List Char} (h : '\n' ∉ current) :
    ∀ line ∈ linesFrom current cs, '\n' ∉ line.text := by
  intro line
  fun_induction linesFrom current cs with grind

theorem lines_unbroken (s : String) : ∀ line ∈ lines s, Unbroken line := by
  intro line hline
  obtain ⟨l, hl, rfl⟩ := List.mem_map.mp hline
  refine (unbroken_ofList _).mpr fun hmem => linesFrom_unbroken List.not_mem_nil l hl ?_
  unfold Line.dropReturn at hmem
  split at hmem
  · exact List.dropLast_subset _ hmem
  · exact hmem

theorem takeLine_unbroken (cs : List Char) : '\n' ∉ dropBreaks (takeLine cs).1 := by
  induction cs using lineRec with
  | last cs h =>
    rw [takeLine_last h]
    exact fun hmem => h (dropBreaks_subset cs hmem)
  | step body rest h _ =>
    rw [takeLine_append h, dropBreaks_concat (.inl rfl)]
    exact fun hmem => h (dropBreaks_subset body hmem)

end Text

namespace Decimal

theorem significant_unbroken (n : Nat) : '\n' ∉ significant n := by
  intro h
  have hmem := (List.dropWhile_suffix _).subset (List.mem_reverse.mp h)
  exact digits_unbroken n (List.mem_reverse.mp hmem)

theorem shortest_unbroken (tie : Tie) (mantissa : Nat) (exponent : Int) :
    '\n' ∉ (shortest tie mantissa exponent).digits := by
  unfold shortest
  split
  · decide
  · dsimp only
    cases hfound : (List.range mostDigits).findSome? _ with
    | none => decide
    | some d =>
      obtain ⟨n, -, hn⟩ := List.exists_of_findSome?_eq_some hfound
      obtain ⟨point, -, rfl⟩ := Option.map_eq_some_iff.mp hn
      exact significant_unbroken point

theorem positional_unbroken {d : Digits} (h : '\n' ∉ d.digits) : '\n' ∉ d.positional := by
  have hzeros : ∀ n, '\n' ∉ zeros n := by simp [zeros]
  have htake : ∀ n, '\n' ∉ d.digits.take n := fun n hmem => h (List.mem_of_mem_take hmem)
  have hdrop : ∀ n, '\n' ∉ d.digits.drop n := fun n hmem => h (List.mem_of_mem_drop hmem)
  unfold Digits.positional
  split
  · simp [hzeros, h]
  · dsimp only
    split
    · simp [hzeros, h]
    · simp [htake, hdrop]

theorem signed_unbroken (negative : Bool) {text : List Char} (h : '\n' ∉ text) :
    Unbroken (signed negative text) := by
  cases negative with
  | true => simpa [signed, h] using (by decide : Unbroken "-")
  | false => simp [signed, h]

theorem display_unbroken (x : Float) : Unbroken (display x) := by
  unfold display
  split
  · decide
  · exact signed_unbroken _ (by decide)
  · next negative mantissa exponent _ =>
    have hdigits := positional_unbroken (shortest_unbroken .up mantissa exponent)
    refine signed_unbroken _ (List.not_mem_append hdigits ?_)
    split <;> decide

end Decimal

end Parlance
