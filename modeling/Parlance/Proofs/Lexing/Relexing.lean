import Mathlib.Data.List.TakeWhile
import Parlance.Proofs.Lexing.Layout

namespace Parlance

namespace Lexer

-- No token of a text has a character that the text does not have.
theorem mem_of_mem_text {line : Nat} {cs : List Char} {ts : List Token} {t eof : Token} {c : Char}
    (hlex : lexFrom line cs = ts ++ [eof]) (ht : t ∈ ts) (hc : c ∈ t.text) : c ∈ cs := by
  obtain ⟨margin, spots, h⟩ := exists_laid line cs
  have hts : ts = spots.map Prod.fst :=
    (List.append_inj' (hlex.symm.trans h.tokens) rfl).1
  rw [hts] at ht
  obtain ⟨spot, hspot, rfl⟩ := List.mem_map.mp ht
  have htext : c ∈ spread spots :=
    List.mem_flatMap.mpr ⟨spot, hspot, List.mem_append_left _ hc⟩
  rw [h.text]
  exact List.mem_append_right margin htext

-- A quote stands for itself only if no other quote follows it.
theorem piece_of_lone {c : Char} {cs : List Char}
    (h : (piece c cs).token = some (.other, ['"'])) :
    c = '"' ∧ '"' ∉ cs ∧ (piece c cs).rest = cs := by
  obtain ⟨taken, htakes⟩ := piece_takes c cs
  have htaken : taken = ['"'] := (htakes.token _ _ h).1 0
  obtain ⟨rfl, hrest⟩ : c = '"' ∧ cs = (piece c cs).rest := by
    simpa [htaken] using htakes.split
  refine ⟨rfl, fun hquote => ?_, hrest.symm⟩
  have hstring : (string cs).token = some (.other, ['"']) := h
  unfold string at hstring
  split at hstring
  · next hdrop =>
    have := List.dropWhile_eq_nil_iff.mp hdrop '"' hquote
    simp at this
  · cases hstring

theorem piece_quote {cs : List Char} (h : '"' ∉ cs) :
    piece '"' cs = .single .other ['"'] cs := by
  have hdrop : cs.dropWhile (· ≠ '"') = [] := by
    rw [List.dropWhile_eq_nil_iff]
    intro c hc
    exact decide_eq_true fun heq => h (heq ▸ hc)
  show string cs = _
  rw [string, hdrop]

-- All tokens of a text are read again from their own characters. What follows a quote that
-- stands for itself has no other quote in it, so this one is not closed this time either.
theorem rereadable_of_lexFrom (line : Nat) (cs : List Char) :
    ∃ ts eof, lexFrom line cs = ts ++ [⟨.eof, "EOF", eof⟩] ∧ Rereadable ts := by
  fun_induction lexFrom line cs with
  | case1 line => exact ⟨[], line, rfl, .nil⟩
  | case2 line c cs p line' hblank ih => exact ih
  | case3 line c cs p line' kind text htoken ih =>
    obtain ⟨ts, eof, hlex, hts⟩ := ih
    refine ⟨⟨kind, String.ofList text, line'⟩ :: ts, eof, by rw [hlex]; rfl, .cons ?_ hts⟩
    by_cases hlone : kind = .other ∧ text = ['"']
    · obtain ⟨rfl, rfl⟩ := hlone
      obtain ⟨-, hquote, hrest⟩ := piece_of_lone htoken
      intro rest hfollows
      have hfree : '"' ∉ rest := by
        intro hmem
        rcases hfollows.2 _ hmem with hspace | ⟨u, hu, hc⟩
        · cases hspace
        · exact hquote (hrest ▸ mem_of_mem_text hlex hu hc)
      exact ⟨'"', rest, 0, by simp [Token.text], by rw [piece_quote hfree]; simp [Piece.single]⟩
    · have hspelled := piece_spelled line' htoken fun hkind htext => hlone ⟨hkind, htext⟩
      exact fun rest hfollows => hspelled rest hfollows.1

end Lexer

-- Tokens as a text, with a space between any two of them.
def Token.joined (ts : List Token) : String :=
  String.ofList ([' '].intercalate (ts.map Token.text))

-- The tokens of a text, written one after another with spaces between them, are read as the
-- same tokens. Only their lines can be others.
theorem joined_tokens_are_read_again (source : String) :
    (lex (Token.joined (lex source).dropLast)).map (fun t => (t.kind, t.lexeme)) =
      (lex source).map fun t => (t.kind, t.lexeme) := by
  obtain ⟨ts, eof, hlex, hts⟩ := Lexer.rereadable_of_lexFrom 1 source.toList
  have hagain := Lexer.lexFrom_of_rereadable hts 1
  have hdrop : (lex source).dropLast = ts := by
    rw [lex, hlex, List.dropLast_concat]
  rw [hdrop, lex, Token.joined, String.toList_ofList, lex, hlex]
  have hunlined := congrArg (List.map fun t => (t.kind, t.lexeme)) hagain
  simpa [Function.comp_def, Token.unlined] using hunlined

end Parlance
