import Parlance.Text.Line

namespace Parlance.Text

-- A text is its last line, or a line with its line feed in front of another text.
@[elab_as_elim]
theorem lineRec {motive : List Char → Prop} (last : ∀ cs, '\n' ∉ cs → motive cs)
    (step : ∀ body rest, '\n' ∉ body → motive rest → motive (body ++ '\n' :: rest))
    (cs : List Char) : motive cs := by
  induction hlength : cs.length using Nat.strongRecOn generalizing cs with
  | ind n ih =>
    by_cases hcs : '\n' ∈ cs
    · obtain ⟨body, rest, rfl, hbody⟩ := List.eq_append_cons_of_mem hcs
      refine step body rest hbody (ih rest.length ?_ rest rfl)
      rw [← hlength, List.length_append, List.length_cons]
      omega
    · exact last cs hcs

section

variable {current body : List Char}

theorem takeLine_last (h : '\n' ∉ body) : takeLine body = (body, []) := by
  induction body with
  | nil => rfl
  | cons c body ih =>
    have hc : c ≠ '\n' := (List.ne_of_not_mem_cons h).symm
    have hbody := List.not_mem_of_not_mem_cons h
    rw [takeLine, if_neg hc, ih hbody]

theorem takeLine_append (h : '\n' ∉ body) (rest : List Char) :
    takeLine (body ++ '\n' :: rest) = (body ++ ['\n'], rest) := by
  induction body with
  | nil => rfl
  | cons c body ih =>
    have hc : c ≠ '\n' := (List.ne_of_not_mem_cons h).symm
    have hbody := List.not_mem_of_not_mem_cons h
    rw [List.cons_append, takeLine, if_neg hc, ih hbody]
    rfl

theorem linesFrom_last (h : '\n' ∉ body) (hne : current ++ body ≠ []) :
    linesFrom current body = [⟨current.reverse ++ body, false⟩] := by
  induction body generalizing current with
  | nil =>
    rw [List.append_nil] at hne
    simp [linesFrom, hne]
  | cons c body ih =>
    have hc : c ≠ '\n' := (List.ne_of_not_mem_cons h).symm
    have hbody := List.not_mem_of_not_mem_cons h
    rw [linesFrom, if_neg hc, ih hbody (by simp)]
    simp

theorem linesFrom_append (h : '\n' ∉ body) (rest : List Char) :
    linesFrom current (body ++ '\n' :: rest) =
      ⟨current.reverse ++ body, true⟩ :: linesFrom [] rest := by
  induction body generalizing current with
  | nil => simp [linesFrom]
  | cons c body ih =>
    have hc : c ≠ '\n' := (List.ne_of_not_mem_cons h).symm
    have hbody := List.not_mem_of_not_mem_cons h
    rw [List.cons_append, linesFrom, if_neg hc, ih hbody]
    simp

end

-- Breaks at the end do not count.
theorem dropBreaks_concat {c : Char} (h : c = '\n' ∨ c = '\r') (cs : List Char) :
    dropBreaks (cs ++ [c]) = dropBreaks cs := by
  rw [dropBreaks, List.reverse_append]
  rcases h with rfl | rfl <;> rfl

theorem dropBreaks_subset (cs : List Char) : dropBreaks cs ⊆ cs := by
  intro c hc
  have hmem := (List.dropWhile_suffix _).subset (List.mem_reverse.mp hc)
  exact List.mem_reverse.mp hmem

theorem dropBreaks_eq_self_iff (cs : List Char) :
    dropBreaks cs = cs ↔ ∀ c ∈ cs.getLast?, c ≠ '\n' ∧ c ≠ '\r' := by
  rcases List.eq_nil_or_concat cs with rfl | ⟨start, c, rfl⟩
  · simp [dropBreaks]
  · rw [List.concat_eq_append, List.getLast?_concat]
    by_cases hc : c = '\n' ∨ c = '\r'
    · rw [dropBreaks_concat hc]
      refine iff_of_false (fun heq => ?_) fun hall => ?_
      · have hle : (dropBreaks start).length ≤ start.length := by
          have hsuffix := (List.dropWhile_suffix (fun c => c == '\n' || c == '\r')
            (l := start.reverse)).length_le
          rwa [List.length_reverse, ← List.length_reverse] at hsuffix
        rw [heq, List.length_append, List.length_singleton] at hle
        omega
      · exact hc.elim (hall c rfl).1 (hall c rfl).2
    · rw [not_or] at hc
      refine iff_of_true ?_ fun d hd => Option.some.inj hd ▸ hc
      rw [dropBreaks, List.reverse_append]
      simp [hc]

theorem dropBreaks_dropReturn (line : Line) :
    dropBreaks line.dropReturn = dropBreaks line.text := by
  unfold Line.dropReturn
  split
  · next hreturn =>
    rw [Bool.and_eq_true, beq_iff_eq] at hreturn
    obtain ⟨start, hstart⟩ := List.getLast?_eq_some_iff.mp hreturn.2
    rw [hstart, List.dropLast_concat, dropBreaks_concat (.inr rfl)]
  · rfl

-- Carriage returns that are no part of a line end: one in front of another with a line feed, or
-- one where the text ends.
def HasStrayReturn (cs : List Char) : Prop :=
  ['\r', '\r', '\n'] <:+: cs ∨ cs.getLast? = some '\r'

section

variable {body : List Char}

theorem returns_infix_append_iff (h : '\n' ∉ body) (rest : List Char) :
    ['\r', '\r', '\n'] <:+: body ++ '\n' :: rest ↔
      ['\r', '\r'] <:+ body ∨ ['\r', '\r', '\n'] <:+: rest := by
  constructor
  · rintro ⟨above, below, heq⟩
    -- The first line feed is the one after the returns, or it is in front of them.
    by_cases habove : '\n' ∈ above
    · obtain ⟨first, more, rfl, hfirst⟩ := List.eq_append_cons_of_mem habove
      have hlines := congrArg takeLine heq
      rw [takeLine_append h, List.append_assoc, List.append_assoc, List.cons_append,
        takeLine_append hfirst] at hlines
      exact .inr ⟨more, below, by rw [List.append_assoc]; exact congrArg Prod.snd hlines⟩
    · have hreturns : '\n' ∉ above ++ ['\r', '\r'] := by simpa using habove
      have hlines := congrArg takeLine heq
      rw [takeLine_append h, show above ++ ['\r', '\r', '\n'] ++ below =
        above ++ ['\r', '\r'] ++ '\n' :: below by simp, takeLine_append hreturns] at hlines
      have hbody : above ++ ['\r', '\r'] = body :=
        List.append_cancel_right (congrArg Prod.fst hlines)
      exact .inl ⟨above, hbody⟩
  · rintro (⟨above, rfl⟩ | ⟨above, below, rfl⟩)
    · exact ⟨above, rest, by simp⟩
    · exact ⟨body ++ '\n' :: above, below, by simp⟩

theorem getLast?_dropReturn_iff (body : List Char) :
    (Line.dropReturn ⟨body, true⟩).getLast? = some '\r' ↔ ['\r', '\r'] <:+ body := by
  unfold Line.dropReturn
  split
  · next hreturn =>
    rw [Bool.true_and, beq_iff_eq] at hreturn
    obtain ⟨start, rfl⟩ := List.getLast?_eq_some_iff.mp hreturn
    rw [List.dropLast_concat, List.getLast?_eq_some_iff]
    constructor
    · rintro ⟨more, rfl⟩
      exact ⟨more, by simp⟩
    · rintro ⟨more, hmore⟩
      have hstart : start ++ ['\r'] = more ++ ['\r'] ++ ['\r'] := by
        rw [← hmore]
        simp
      exact ⟨more, List.append_cancel_right hstart⟩
  · next hreturn =>
    rw [Bool.true_and, beq_iff_eq] at hreturn
    refine iff_of_false hreturn ?_
    rintro ⟨more, rfl⟩
    exact hreturn (by simp)

-- Lines that end in a carriage return when they have been split.
theorem exists_return_iff (cs : List Char) :
    (∃ line ∈ linesFrom [] cs, line.dropReturn.getLast? = some '\r') ↔ HasStrayReturn cs := by
  induction cs using lineRec with
  | last cs h =>
    have hinfix : ¬ ['\r', '\r', '\n'] <:+: cs := fun hin => h (hin.subset (by simp))
    by_cases hcs : cs = []
    · subst hcs
      simp [linesFrom, HasStrayReturn]
    · have hlines : linesFrom [] cs = [⟨cs, false⟩] := linesFrom_last h hcs
      simp [hlines, HasStrayReturn, hinfix, Line.dropReturn]
  | step body rest h ih =>
    have hlast : (body ++ '\n' :: rest).getLast? = some '\r' ↔ rest.getLast? = some '\r' := by
      rw [List.getLast?_append, List.getLast?_cons]
      cases rest.getLast? <;> simp
    rw [linesFrom_append h, List.reverse_nil, List.nil_append]
    simp only [List.mem_cons, exists_eq_or_imp]
    rw [ih, getLast?_dropReturn_iff, HasStrayReturn, HasStrayReturn, returns_infix_append_iff h,
      hlast, or_assoc]

end

end Parlance.Text
