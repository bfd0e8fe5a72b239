import Parlance.Proofs.Decimal.Reading
import Parlance.Proofs.Lexing

namespace Parlance

namespace Lexer

theorem ofWord_ne_number (word : String) : TokenKind.ofWord word ≠ .number := by
  unfold TokenKind.ofWord
  repeat' split
  all_goals decide

theorem ofSymbol_ne_number (c : Char) : TokenKind.ofSymbol c ≠ .number := by
  unfold TokenKind.ofSymbol
  split <;> decide

theorem ofPair?_ne_number (c d : Char) : TokenKind.ofPair? c d ≠ some .number := by
  unfold TokenKind.ofPair?
  split <;> decide

-- A number starts with a digit, or with a point in front of one. A second point never belongs
-- to it.
theorem number_unsigned {c : Char} {cs : List Char}
    (hc : c.isDigit = true ∨ c = '.' ∧ startsDigit cs = true) :
    ∀ t ∈ (number c cs).token, Decimal.Unsigned t.2 := by
  have hall : (cs.takeWhile Char.isDigit).all Char.isDigit = true := List.all_takeWhile
  have hwhole : Decimal.Unsigned (c :: cs.takeWhile Char.isDigit) := by
    rcases hc with hc | ⟨rfl, hc⟩
    · exact .whole (by simp [hc]) (by simp)
    · have hne : [] ++ cs.takeWhile Char.isDigit ≠ [] := by
        cases cs with
        | nil => cases hc
        | cons d ds =>
          have hd : d.isDigit = true := hc
          simp [hd]
      exact Decimal.Unsigned.point rfl hall hne
  simp only [number, digits]
  split
  · next d more heq =>
    split
    · next hpoint =>
      have hdigit : c.isDigit = true := hc.resolve_right fun h => hpoint.1 h.1
      have hds : (c :: cs.takeWhile Char.isDigit).all Char.isDigit = true := by simp [hdigit]
      rintro _ ⟨⟩
      exact .point hds List.all_takeWhile (by simp)
    · rintro _ ⟨⟩
      exact hwhole
  · rintro _ ⟨⟩
    exact hwhole

theorem piece_unsigned {c : Char} {cs : List Char} :
    ∀ t ∈ (piece c cs).token, t.1 = .number → Decimal.Unsigned t.2 := by
  have hsymbol : ∀ t ∈ (symbol c cs).token, t.1 ≠ .number := by
    unfold symbol
    split
    · simpa [Piece.single] using ofSymbol_ne_number c
    · next d rest =>
      split
      · next kind hpair =>
        have := ofPair?_ne_number c d
        simp_all [Piece.single]
      · simpa [Piece.single] using ofSymbol_ne_number c
  have hword : ∀ t ∈ (word c cs).token, t.1 ≠ .number := by
    simpa [word, Piece.single] using ofWord_ne_number _
  have hstring : ∀ t ∈ (string cs).token, t.1 ≠ .number := by
    unfold string
    split <;> simp [Piece.single]
  have hslash : ∀ t ∈ (slash cs).token, t.1 ≠ .number := by
    unfold slash
    repeat' split
    all_goals simp [Piece.single, Piece.blank]
  intro t ht hkind
  unfold piece at ht
  split at ht
  · cases ht
  split at ht
  · cases ht
  split at ht
  · cases ht
  split at ht
  · exact absurd hkind (hslash t ht)
  split at ht
  · exact absurd hkind (hstring t ht)
  split at ht
  · next hc => exact number_unsigned hc t ht
  split at ht
  · exact absurd hkind (hword t ht)
  · exact absurd hkind (hsymbol t ht)

theorem lexFrom_unsigned {line : Nat} {cs : List Char} :
    ∀ t ∈ lexFrom line cs, t.kind = .number → Decimal.Unsigned t.lexeme.toList := by
  fun_induction lexFrom line cs with
  | case1 line => simp
  | case2 line c cs p line' hp ih => exact ih
  | case3 line c cs p line' kind text hp ih =>
    refine List.forall_mem_cons.mpr ⟨fun hkind => ?_, ih⟩
    rw [String.toList_ofList]
    exact piece_unsigned _ hp hkind

end Lexer

end Parlance
