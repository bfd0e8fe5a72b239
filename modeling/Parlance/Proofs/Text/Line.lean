import Parlance.Text.Line

namespace Parlance.Text

-- A line of a text, given the text up to some character of the line and the text after that
-- character. The line starts behind a line feed or where the text does, and it ends in front of
-- a line feed, of a carriage return with a line feed, or where the text does.
structure IsLineAt (shown upTo rest : List Char) : Prop where
  single : '\n' ∉ shown
  around : ∃ above head last tail below,
    upTo = above ++ (head ++ [last]) ∧ rest = tail ++ below ∧ shown = head ++ last :: tail ∧
      (above = [] ∨ above.getLast? = some '\n') ∧
      (below = [] ∨ below.head? = some '\n' ∨ below.take 2 = ['\r', '\n'])

-- The line that has been begun, up to the next line feed.
theorem head?_linesFrom {current : List Char} (hcurrent : current ≠ []) (cs : List Char) :
    (linesFrom current cs)[0]? =
      some ⟨current.reverse ++ cs.takeWhile (· ≠ '\n'), cs.contains '\n'⟩ := by
  induction cs generalizing current with
  | nil => simp [linesFrom, hcurrent]
  | cons c cs ih =>
    unfold linesFrom
    by_cases hc : c = '\n'
    · subst hc
      simp
    · rw [if_neg hc, ih (List.cons_ne_nil c current)]
      simp [hc, Ne.symm hc]

-- A character that is no line feed stands on the line of the number of line feeds before it.
theorem getElem?_linesFrom (current upTo rest : List Char) {c : Char} (hc : c ≠ '\n')
    (hcurrent : '\n' ∉ current) :
    ∃ above head, current.reverse ++ upTo = above ++ head ∧ '\n' ∉ head ∧
      (above = [] ∨ above.getLast? = some '\n') ∧
      (linesFrom current (upTo ++ c :: rest))[upTo.count '\n']? =
        some ⟨head ++ c :: rest.takeWhile (· ≠ '\n'), rest.contains '\n'⟩ := by
  induction upTo generalizing current with
  | nil =>
    refine ⟨[], current.reverse, by simp, by simpa using hcurrent, .inl rfl, ?_⟩
    rw [List.nil_append, linesFrom, if_neg hc]
    simpa using head?_linesFrom (List.cons_ne_nil c current) rest
  | cons d upTo ih =>
    rw [List.cons_append, linesFrom]
    by_cases hd : d = '\n'
    · subst hd
      obtain ⟨above, head, hsplit, hhead, habove, hline⟩ := ih [] (by simp)
      refine ⟨current.reverse ++ '\n' :: above, head, ?_, hhead, .inr ?_, ?_⟩
      · simpa using hsplit
      · rcases habove with rfl | habove
        · simp
        · simp [List.getLast?_cons, habove]
      · simpa using hline
    · obtain ⟨above, head, hsplit, hhead, habove, hline⟩ :=
        ih (d :: current) (by simp [hcurrent, Ne.symm hd])
      refine ⟨above, head, by simpa using hsplit, hhead, habove, ?_⟩
      rw [if_neg hd, List.count_cons_of_ne hd]
      exact hline

theorem not_mem_takeWhile (cs : List Char) : '\n' ∉ cs.takeWhile (· ≠ '\n') := by
  intro h
  have := List.all_eq_true.mp (List.all_takeWhile (p := (· ≠ '\n')) (l := cs)) _ h
  simp at this

theorem dropWhile_cases (cs : List Char) :
    cs.contains '\n' = false ∧ cs.dropWhile (· ≠ '\n') = [] ∨
      cs.contains '\n' = true ∧ (cs.dropWhile (· ≠ '\n')).head? = some '\n' := by
  induction cs with
  | nil => simp
  | cons c cs ih =>
    by_cases hc : c = '\n'
    · simp [hc]
    · simpa [hc, Ne.symm hc] using ih

-- A line without the carriage return that goes with its line feed.
theorem isLineAt_dropReturn {above head tail below : List Char} {c : Char} {ended : Bool}
    (hhead : '\n' ∉ head) (htail : '\n' ∉ tail) (hnewline : c ≠ '\n') (hreturn : c ≠ '\r')
    (habove : above = [] ∨ above.getLast? = some '\n')
    (hbelow : ended = false ∧ below = [] ∨ ended = true ∧ below.head? = some '\n') :
    IsLineAt (Line.dropReturn ⟨head ++ c :: tail, ended⟩) (above ++ (head ++ [c]))
      (tail ++ below) := by
  have hsingle : '\n' ∉ head ++ c :: tail := by
    simp [hhead, Ne.symm hnewline, htail]
  unfold Line.dropReturn
  split
  · next hdrop =>
    simp only [Bool.and_eq_true, beq_iff_eq] at hdrop
    obtain ⟨rfl, hlast⟩ := hdrop
    obtain ⟨below, rfl⟩ : ∃ more, below = '\n' :: more := by
      rcases hbelow with ⟨h, -⟩ | ⟨-, h⟩
      · cases h
      · exact List.head?_eq_some_iff.mp h
    -- The carriage return is not the character itself, so it is behind it.
    obtain ⟨tail, rfl⟩ : ∃ more, tail = more ++ ['\r'] := by
      rcases List.eq_nil_or_concat tail with rfl | ⟨more, d, rfl⟩
      · simp at hlast
        exact absurd hlast hreturn
      · simp [List.getLast?_append, List.getLast?_cons] at hlast
        exact ⟨more, by rw [hlast, List.concat_eq_append]⟩
    have hshown : (head ++ c :: (tail ++ ['\r'])).dropLast = head ++ c :: tail := by
      rw [← List.cons_append, ← List.append_assoc, List.dropLast_concat]
    refine ⟨fun h => hsingle (List.dropLast_subset _ h), above, head, c, tail,
      '\r' :: '\n' :: below, rfl, by simp, hshown, habove, .inr (.inr rfl)⟩
  · refine ⟨hsingle, above, head, c, tail, below, rfl, rfl, rfl, habove, ?_⟩
    exact hbelow.imp And.right fun h => .inl h.2

-- The line that a character is on, which is neither a line feed nor a carriage return.
theorem exists_line {source : String} {upTo rest : List Char} {c : Char}
    (hsource : source.toList = upTo ++ c :: rest) (hnewline : c ≠ '\n') (hreturn : c ≠ '\r') :
    ∃ shown : String, (lines source)[upTo.count '\n']? = some shown ∧
      IsLineAt shown.toList (upTo ++ [c]) rest := by
  obtain ⟨above, head, hsplit, hhead, habove, hline⟩ :=
    getElem?_linesFrom [] upTo rest hnewline (by simp)
  rw [List.reverse_nil, List.nil_append] at hsplit
  refine ⟨_, by rw [lines, hsource, List.getElem?_map, hline]; rfl, ?_⟩
  rw [String.toList_ofList]
  have hrest : rest.takeWhile (· ≠ '\n') ++ rest.dropWhile (· ≠ '\n') = rest :=
    List.takeWhile_append_dropWhile
  have hline := isLineAt_dropReturn hhead (not_mem_takeWhile rest) hnewline hreturn habove
    (dropWhile_cases rest)
  rwa [hrest, ← List.append_assoc, ← hsplit] at hline

end Parlance.Text
