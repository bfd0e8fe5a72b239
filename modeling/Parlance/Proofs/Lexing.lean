import Parlance.Token.Lexer

namespace Parlance

namespace Lexer

theorem ofWord_ne_eof (word : String) : TokenKind.ofWord word ≠ .eof := by
  unfold TokenKind.ofWord
  repeat' split
  all_goals decide

theorem ofSymbol_ne_eof (c : Char) : TokenKind.ofSymbol c ≠ .eof := by
  unfold TokenKind.ofSymbol
  split <;> decide

theorem ofPair?_ne_eof (c d : Char) : TokenKind.ofPair? c d ≠ some .eof := by
  unfold TokenKind.ofPair?
  split <;> decide

-- No piece of a text is read as its end.
theorem piece_ne_eof (c : Char) (cs : List Char) :
    ∀ t ∈ (piece c cs).token, t.1 ≠ .eof := by
  have hsymbol : ∀ t ∈ (symbol c cs).token, t.1 ≠ .eof := by
    unfold symbol
    split
    · simpa [Piece.single] using ofSymbol_ne_eof c
    · next d rest =>
      split
      · next kind hpair =>
        have := ofPair?_ne_eof c d
        simp_all [Piece.single]
      · simpa [Piece.single] using ofSymbol_ne_eof c
  have hword : ∀ t ∈ (word c cs).token, t.1 ≠ .eof := by
    simpa [word, Piece.single] using ofWord_ne_eof _
  have hnumber : ∀ t ∈ (number c cs).token, t.1 ≠ .eof := by
    simp only [number]
    split
    · split <;> simp [Piece.single]
    · simp [Piece.single]
  have hstring : ∀ t ∈ (string cs).token, t.1 ≠ .eof := by
    unfold string
    split <;> simp [Piece.single]
  have hslash : ∀ t ∈ (slash cs).token, t.1 ≠ .eof := by
    unfold slash
    repeat' split
    all_goals simp [Piece.single, Piece.blank]
  unfold piece
  repeat' split
  all_goals first | assumption | simp [Piece.blank]

theorem lexFrom_ends (line : Nat) (cs : List Char) :
    ∃ t ∈ (lexFrom line cs).getLast?, t.kind = .eof := by
  fun_induction lexFrom line cs with
  | case1 line => exact ⟨_, rfl, rfl⟩
  | case2 line c rest p line' hp ih => exact ih
  | case3 line c rest p line' kind text hp ih =>
    obtain ⟨t, ht, hkind⟩ := ih
    refine ⟨t, ?_, hkind⟩
    rw [List.getLast?_cons, ht]
    rfl

theorem eq_nil_of_lexFrom {line : Nat} {cs : List Char} {ts rest : List Token} {t : Token}
    (h : lexFrom line cs = ts ++ t :: rest) (ht : t.kind = .eof) : rest = [] := by
  fun_induction lexFrom line cs generalizing ts with
  | case1 line =>
    cases ts with
    | nil => exact (List.cons.inj h).2.symm
    | cons u us => simp at h
  | case2 line c cs p line' hp =>
    rename_i ih
    exact ih h
  | case3 line c cs p line' kind text hp =>
    rename_i ih
    cases ts with
    | nil =>
      obtain ⟨rfl, -⟩ := List.cons.inj h
      exact absurd ht (piece_ne_eof c cs _ hp)
    | cons u us => exact ih (List.cons.inj h).2

end Lexer

-- The last token of a text is its end.
theorem lex_ends (source : String) : ∃ t ∈ (lex source).getLast?, t.kind = .eof :=
  Lexer.lexFrom_ends 1 source.toList

-- No token follows the end of a text.
theorem eq_nil_of_lex {source : String} {ts rest : List Token} {t : Token}
    (h : lex source = ts ++ t :: rest) (ht : t.kind = .eof) : rest = [] :=
  Lexer.eq_nil_of_lexFrom h ht

end Parlance
