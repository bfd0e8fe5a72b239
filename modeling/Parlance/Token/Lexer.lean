import Parlance.Token

namespace Parlance.Lexer

-- What stands at the head of a text: a token, or something that is skipped. `newlines`
-- counts the line breaks in it and `rest` is the text that follows.
structure Piece where
  token : Option (TokenKind × List Char)
  newlines : Nat
  rest : List Char

namespace Piece

def blank (newlines : Nat) (rest : List Char) : Piece :=
  ⟨none, newlines, rest⟩

def single (kind : TokenKind) (text rest : List Char) : Piece :=
  ⟨some (kind, text), 0, rest⟩

end Piece

def isWordStart (c : Char) : Bool :=
  c.isAlpha || c == '_'

def isWordPart (c : Char) : Bool :=
  c.isAlphanum || c == '_'

-- The text after the first `*/`, with the number of line breaks before it.
def closeComment (newlines : Nat) : List Char → Option (Nat × List Char)
  | [] => none
  | '*' :: '/' :: rest => some (newlines, rest)
  | c :: rest => closeComment (if c = '\n' then newlines + 1 else newlines) rest

-- The digits at the head of a text, and the text after them.
def digits (cs : List Char) : List Char × List Char :=
  (cs.takeWhile Char.isDigit, cs.dropWhile Char.isDigit)

-- A number that starts with `c`. A point belongs to it only in front of a digit, and
-- only one does.
def number (c : Char) (cs : List Char) : Piece :=
  let (whole, rest) := digits cs
  match rest with
  | '.' :: d :: more =>
    if c ≠ '.' ∧ d.isDigit then
      let (fraction, rest) := digits (d :: more)
      .single .number (c :: whole ++ '.' :: fraction) rest
    else
      .single .number (c :: whole) rest
  | _ => .single .number (c :: whole) rest

-- A string runs to the next quote, line breaks included. A quote that is never closed
-- stands for itself.
def string (cs : List Char) : Piece :=
  match cs.dropWhile (· ≠ '"') with
  | [] => .single .other ['"'] cs
  | _ :: rest =>
    let text := cs.takeWhile (· ≠ '"')
    ⟨some (.string, text), text.count '\n', rest⟩

def word (c : Char) (cs : List Char) : Piece :=
  let text := c :: cs.takeWhile isWordPart
  .single (.ofWord (String.ofList text)) text (cs.dropWhile isWordPart)

-- An operator or a punctuation character, two characters where they belong together.
def symbol (c : Char) (cs : List Char) : Piece :=
  match cs with
  | [] => .single (.ofSymbol c) [c] []
  | d :: rest =>
    match TokenKind.ofPair? c d with
    | some kind => .single kind [c, d] rest
    | none => .single (.ofSymbol c) [c] cs

-- A comment between `/*` and `*/` is skipped; when it is never closed the slash stands
-- for itself.
def slash (cs : List Char) : Piece :=
  match cs with
  | '*' :: body =>
    match closeComment 0 body with
    | some (newlines, rest) => .blank newlines rest
    | none => .single .slash ['/'] cs
  | _ => .single .slash ['/'] cs

def startsDigit : List Char → Bool
  | [] => false
  | c :: _ => c.isDigit

-- The piece at the head of `c :: cs`.
def piece (c : Char) (cs : List Char) : Piece :=
  if c = '\n' then .blank 1 cs
  else if c = ' ' ∨ c = '\r' ∨ c = '\t' then .blank 0 cs
  else if c = '#' then .blank 0 (cs.dropWhile (· ≠ '\n'))
  else if c = '/' then slash cs
  else if c = '"' then string cs
  else if c.isDigit ∨ (c = '.' ∧ startsDigit cs) then number c cs
  else if isWordStart c then word c cs
  else symbol c cs

theorem length_dropWhile_le (p : Char → Bool) (cs : List Char) :
    (cs.dropWhile p).length ≤ cs.length :=
  (List.dropWhile_suffix p).length_le

theorem closeComment_length {n m : Nat} {cs rest : List Char}
    (h : closeComment n cs = some (m, rest)) : rest.length ≤ cs.length := by
  fun_induction closeComment n cs with
  | case1 => simp at h
  | case2 =>
    simp only [Option.some.injEq, Prod.mk.injEq] at h
    simp only [← h.2, List.length_cons]
    omega
  | case3 n c cs hne ih =>
    have := ih h
    simp only [List.length_cons]
    omega

theorem number_rest_length (c : Char) (cs : List Char) :
    (number c cs).rest.length ≤ cs.length := by
  have hw := length_dropWhile_le Char.isDigit cs
  simp only [number, digits]
  split
  · next d more heq =>
    have hf := length_dropWhile_le Char.isDigit (d :: more)
    rw [heq] at hw
    simp only [List.length_cons] at hw hf
    split
    · simp only [Piece.single]
      omega
    · simpa only [Piece.single, heq, List.length_cons] using hw
  · simpa only [Piece.single] using hw

theorem string_rest_length (cs : List Char) : (string cs).rest.length ≤ cs.length := by
  have h := length_dropWhile_le (· ≠ '"') cs
  simp only [string]
  split
  · simp [Piece.single]
  · next heq =>
    rw [heq, List.length_cons] at h
    exact Nat.le_of_succ_le h

theorem slash_rest_length (cs : List Char) : (slash cs).rest.length ≤ cs.length := by
  unfold slash
  split
  · split
    · next heq =>
      have := closeComment_length heq
      simp only [Piece.blank, List.length_cons]
      omega
    · simp [Piece.single]
  · simp [Piece.single]

theorem symbol_rest_length (c : Char) (cs : List Char) :
    (symbol c cs).rest.length ≤ cs.length := by
  unfold symbol
  split
  · simp [Piece.single]
  · split <;> simp [Piece.single]

-- Every piece takes at least its first character.
theorem piece_rest_length (c : Char) (cs : List Char) :
    (piece c cs).rest.length ≤ cs.length := by
  unfold piece
  split
  · simp [Piece.blank]
  split
  · simp [Piece.blank]
  split
  · simpa [Piece.blank] using length_dropWhile_le (· ≠ '\n') cs
  split
  · exact slash_rest_length cs
  split
  · exact string_rest_length cs
  split
  · exact number_rest_length c cs
  split
  · simpa [word, Piece.single] using length_dropWhile_le isWordPart cs
  · exact symbol_rest_length c cs

-- The tokens of a text whose first character is on line `line`. The last one is the end
-- of the text.
def lexFrom (line : Nat) (cs : List Char) : List Token :=
  match cs with
  | [] => [⟨.eof, "EOF", line⟩]
  | c :: rest =>
    let p := piece c rest
    let line := line + p.newlines
    match p.token with
    | none => lexFrom line p.rest
    | some (kind, text) => ⟨kind, String.ofList text, line⟩ :: lexFrom line p.rest
termination_by cs.length
decreasing_by
  all_goals
    have := piece_rest_length c rest
    simp only [List.length_cons]
    omega

end Parlance.Lexer

namespace Parlance

-- The tokens of a source text. Lexing never fails.
def lex (source : String) : List Token :=
  Lexer.lexFrom 1 source.toList

end Parlance
