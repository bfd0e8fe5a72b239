import Parlance.Proofs.Lexing
import Parlance.Proofs.Printing

namespace Parlance

namespace Lexer

-- Nothing follows, or a space does.
def Breaks (rest : List Char) : Prop :=
  ∀ c ∈ rest.head?, c = ' '

theorem takeWhile_of_breaks {p : Char → Bool} {cs rest : List Char}
    (hcs : ∀ c ∈ cs, p c = true) (hspace : p ' ' = false) (hrest : Breaks rest) :
    (cs ++ rest).takeWhile p = cs ∧ (cs ++ rest).dropWhile p = rest := by
  rw [List.takeWhile_append_of_pos hcs, List.dropWhile_append_of_pos hcs]
  cases rest with
  | nil => simp
  | cons c rest =>
    cases hrest c rfl
    simp [hspace]

theorem of_mem_takeWhile {p : Char → Bool} {cs : List Char} : ∀ c ∈ cs.takeWhile p, p c = true :=
  fun c hc => List.all_eq_true.mp List.all_takeWhile c hc

theorem startsDigit_eq_false {rest : List Char} (h : Breaks rest) : startsDigit rest = false := by
  cases rest with
  | nil => rfl
  | cons c rest =>
    cases h c rfl
    rfl

-- Characters that start neither a blank nor a comment nor a string.
def isPlain (c : Char) : Prop :=
  c ≠ '\n' ∧ ¬ (c = ' ' ∨ c = '\r' ∨ c = '\t') ∧ c ≠ '#' ∧ c ≠ '/' ∧ c ≠ '"'

theorem piece_of_isPlain {c : Char} (h : isPlain c) (cs : List Char) :
    piece c cs =
      if c.isDigit ∨ (c = '.' ∧ startsDigit cs) then number c cs
      else if isWordStart c then word c cs
      else symbol c cs := by
  obtain ⟨hnewline, hblank, hhash, hslash, hquote⟩ := h
  rw [piece, if_neg hnewline, if_neg hblank, if_neg hhash, if_neg hslash, if_neg hquote]

theorem number_of_digits {whole rest : List Char} (c : Char)
    (hwhole : ∀ d ∈ whole, d.isDigit = true) (hrest : Breaks rest) :
    number c (whole ++ rest) = .single .number (c :: whole) rest := by
  obtain ⟨htake, hdrop⟩ := takeWhile_of_breaks hwhole (by decide) hrest
  simp only [number, digits, htake, hdrop]
  split
  · cases hrest '.' rfl
  · rfl

theorem number_of_fraction {c d : Char} {whole ds rest : List Char} (hc : c ≠ '.')
    (hwhole : ∀ d ∈ whole, d.isDigit = true) (hd : d.isDigit = true)
    (hds : ∀ d ∈ ds, d.isDigit = true) (hrest : Breaks rest) :
    number c (whole ++ '.' :: d :: ds ++ rest) =
      .single .number (c :: whole ++ '.' :: d :: ds) rest := by
  have htake : (whole ++ '.' :: d :: ds ++ rest).takeWhile Char.isDigit = whole := by
    rw [List.append_assoc, List.takeWhile_append_of_pos hwhole]
    simp
  have hdrop : (whole ++ '.' :: d :: ds ++ rest).dropWhile Char.isDigit =
      '.' :: d :: (ds ++ rest) := by
    rw [List.append_assoc, List.dropWhile_append_of_pos hwhole]
    simp
  have hall : ∀ x ∈ d :: ds, x.isDigit = true := List.forall_mem_cons.mpr ⟨hd, hds⟩
  have hfraction := takeWhile_of_breaks hall (by decide) hrest
  rw [List.cons_append] at hfraction
  simp only [number, digits, htake, hdrop, hc, hd, hfraction, ne_eq, not_false_eq_true, and_self,
    if_true]

end Lexer

-- A token that is read from its own characters wherever nothing or a space follows them.
def Token.Spelled (t : Token) : Prop :=
  ∀ rest, Lexer.Breaks rest → ∃ c cs n, t.text ++ rest = c :: cs ∧
    Lexer.piece c cs = ⟨some (t.kind, t.lexeme.toList), n, rest⟩

namespace Lexer

theorem spelled_of_ne_string {kind : TokenKind} {c : Char} {cs : List Char} (line : Nat)
    (hkind : kind ≠ .string)
    (h : ∀ rest, Breaks rest → piece c (cs ++ rest) = .single kind (c :: cs) rest) :
    Token.Spelled ⟨kind, String.ofList (c :: cs), line⟩ := by
  intro rest hrest
  refine ⟨c, cs ++ rest, 0, ?_, ?_⟩
  · simp [Token.text, hkind]
  · rw [h rest hrest, Piece.single, String.toList_ofList]

theorem slash_spelled (line : Nat) : Token.Spelled ⟨.slash, String.ofList ['/'], line⟩ := by
  refine spelled_of_ne_string line (by decide) fun rest hrest => ?_
  show slash rest = _
  unfold slash
  split
  · cases hrest '*' rfl
  · rfl

theorem string_spelled {cs : List Char} (line : Nat) (hcs : ∀ c ∈ cs, c ≠ '"') :
    Token.Spelled ⟨.string, String.ofList cs, line⟩ := by
  intro rest hrest
  have hne : ∀ c ∈ cs, (decide (c ≠ '"')) = true := fun c hc => decide_eq_true (hcs c hc)
  have htake : (cs ++ '"' :: rest).takeWhile (· ≠ '"') = cs := by
    rw [List.takeWhile_append_of_pos hne]
    simp
  have hdrop : (cs ++ '"' :: rest).dropWhile (· ≠ '"') = '"' :: rest := by
    rw [List.dropWhile_append_of_pos hne]
    simp
  refine ⟨'"', cs ++ '"' :: rest, cs.count '\n', ?_, ?_⟩
  · simp [Token.text]
  · show string (cs ++ '"' :: rest) = _
    rw [string, hdrop]
    simp only [htake, String.toList_ofList]

theorem word_spelled {c : Char} {cs : List Char} (line : Nat) (hplain : isPlain c)
    (hstart : isWordStart c = true) (hcs : ∀ d ∈ cs, isWordPart d = true)
    (hdigit : c.isDigit = false)
    (hkind : TokenKind.ofWord (String.ofList (c :: cs)) ≠ .string) :
    Token.Spelled ⟨.ofWord (String.ofList (c :: cs)), String.ofList (c :: cs), line⟩ := by
  refine spelled_of_ne_string line hkind fun rest hrest => ?_
  obtain ⟨htake, hdrop⟩ := takeWhile_of_breaks hcs (by decide) hrest
  have hdot : c ≠ '.' := by
    rintro rfl
    cases hstart
  rw [piece_of_isPlain hplain, if_neg (by simp [hdigit, hdot]), if_pos hstart]
  simp only [word, htake, hdrop]

theorem ofWord_ne_string (word : String) : TokenKind.ofWord word ≠ .string := by
  unfold TokenKind.ofWord
  repeat' split
  all_goals decide

theorem ofSymbol_ne_string (c : Char) : TokenKind.ofSymbol c ≠ .string := by
  unfold TokenKind.ofSymbol
  split <;> decide

theorem ofPair?_ne_string (c d : Char) : TokenKind.ofPair? c d ≠ some .string := by
  unfold TokenKind.ofPair?
  split <;> decide

theorem ofPair?_space (c : Char) : TokenKind.ofPair? c ' ' = none := by
  unfold TokenKind.ofPair?
  split <;> simp_all

theorem ofPair?_dot (d : Char) : TokenKind.ofPair? '.' d = none := by
  unfold TokenKind.ofPair?
  split <;> simp_all

theorem number_spelled {c : Char} {cs text : List Char} {kind : TokenKind} (line : Nat)
    (hplain : isPlain c) (hc : c.isDigit = true ∨ (c = '.' ∧ startsDigit cs = true))
    (h : (number c cs).token = some (kind, text)) :
    Token.Spelled ⟨kind, String.ofList text, line⟩ := by
  have hwhole : ∀ d ∈ cs.takeWhile Char.isDigit, d.isDigit = true := of_mem_takeWhile
  have hinteger : Token.Spelled
      ⟨.number, String.ofList (c :: cs.takeWhile Char.isDigit), line⟩ := by
    refine spelled_of_ne_string line (by decide) fun rest hrest => ?_
    rw [piece_of_isPlain hplain, if_pos ?_, number_of_digits c hwhole hrest]
    refine hc.imp_right fun hdot => ⟨hdot.1, ?_⟩
    cases cs with
    | nil => cases hdot.2
    | cons d ds =>
      have hd : d.isDigit = true := hdot.2
      rw [List.takeWhile_cons_of_pos hd]
      exact hd
  simp only [number, digits] at h
  split at h
  · next d more heq =>
    split at h
    · next hcond =>
      obtain ⟨hdot, hd⟩ := hcond
      rw [List.takeWhile_cons_of_pos hd] at h
      cases h
      refine spelled_of_ne_string line (by decide) fun rest hrest => ?_
      have hdigit : c.isDigit = true := hc.resolve_right fun h => hdot h.1
      rw [piece_of_isPlain hplain, if_pos (.inl hdigit)]
      exact number_of_fraction hdot hwhole hd of_mem_takeWhile hrest
    · cases h
      exact hinteger
  · cases h
    exact hinteger

theorem symbol_spelled {c : Char} {cs text : List Char} {kind : TokenKind} (line : Nat)
    (hplain : isPlain c) (hdigit : c.isDigit = false) (hword : isWordStart c = false)
    (h : (symbol c cs).token = some (kind, text)) :
    Token.Spelled ⟨kind, String.ofList text, line⟩ := by
  have hsingle : Token.Spelled ⟨.ofSymbol c, String.ofList [c], line⟩ := by
    refine spelled_of_ne_string line (ofSymbol_ne_string c) fun rest hrest => ?_
    rw [List.nil_append, piece_of_isPlain hplain,
      if_neg (by simp [hdigit, startsDigit_eq_false hrest]), if_neg (by simp [hword])]
    cases rest with
    | nil => rfl
    | cons d rest =>
      cases hrest d rfl
      simp only [symbol, ofPair?_space]
  unfold symbol at h
  split at h
  · cases h
    exact hsingle
  · next d rest =>
    split at h
    · next hpair =>
      cases h
      have hdot : c ≠ '.' := by
        rintro rfl
        rw [ofPair?_dot] at hpair
        cases hpair
      have hkind : kind ≠ .string := by
        rintro rfl
        exact ofPair?_ne_string c d hpair
      refine spelled_of_ne_string line hkind fun rest hrest => ?_
      rw [List.cons_append, piece_of_isPlain hplain, if_neg (by simp [hdigit, hdot]),
        if_neg (by simp [hword])]
      simp only [symbol, hpair, List.nil_append]
    · cases h
      exact hsingle

-- What has been read from a text can be read again from its own characters, unless it is a
-- quote that stands for itself.
theorem piece_spelled {c : Char} {cs text : List Char} {kind : TokenKind} (line : Nat)
    (h : (piece c cs).token = some (kind, text)) (hlone : kind = .other → text ≠ ['"']) :
    Token.Spelled ⟨kind, String.ofList text, line⟩ := by
  by_cases hplain : isPlain c
  · rw [piece_of_isPlain hplain] at h
    split at h
    · next hnumber => exact number_spelled line hplain hnumber h
    · next hnumber =>
      have hdigit : c.isDigit = false := by
        simpa using fun hd => hnumber (.inl hd)
      split at h
      · next hstart =>
        cases h
        exact word_spelled line hplain hstart of_mem_takeWhile hdigit (ofWord_ne_string _)
      · next hstart => exact symbol_spelled line hplain hdigit (by simpa using hstart) h
  · unfold piece at h
    split at h
    · cases h
    split at h
    · cases h
    split at h
    · cases h
    split at h
    · unfold slash at h
      repeat' split at h
      all_goals cases h
      all_goals exact slash_spelled line
    split at h
    · unfold string at h
      split at h
      · cases h
        exact absurd rfl (hlone rfl)
      · cases h
        exact string_spelled line fun c hc => of_decide_eq_true (of_mem_takeWhile c hc)
    · next hnewline hblank hhash hslash hquote =>
      exact absurd ⟨hnewline, hblank, hhash, hslash, hquote⟩ hplain

theorem spelled_of_mem_lexFrom {line : Nat} {cs : List Char} :
    ∀ t ∈ lexFrom line cs, t.kind ≠ .other → t.kind ≠ .eof → t.Spelled := by
  fun_induction lexFrom line cs with
  | case1 line => simp
  | case2 line c cs p line' hp ih => exact ih
  | case3 line c cs p line' kind text hp ih =>
    refine List.forall_mem_cons.mpr ⟨fun hother _ => ?_, ih⟩
    exact piece_spelled line' hp fun h => absurd h hother

theorem lexFrom_space (line : Nat) (cs : List Char) :
    lexFrom line (' ' :: cs) = lexFrom line cs := by
  rw [lexFrom]
  rfl

theorem lexFrom_of_piece {line n : Nat} {c : Char} {cs text rest : List Char} {kind : TokenKind}
    (h : piece c cs = ⟨some (kind, text), n, rest⟩) :
    lexFrom line (c :: cs) = ⟨kind, String.ofList text, line + n⟩ :: lexFrom (line + n) rest := by
  rw [lexFrom, h]

-- What can follow a token in a text in which the texts of other tokens follow it, with spaces
-- between them.
def Follows (ts : List Token) (rest : List Char) : Prop :=
  Breaks rest ∧ ∀ c ∈ rest, c = ' ' ∨ ∃ u ∈ ts, c ∈ u.text

-- Tokens each of which is read from its own characters in front of the others.
inductive Rereadable : List Token → Prop
  | nil : Rereadable []
  | cons {t : Token} {ts : List Token}
      (head : ∀ rest, Follows ts rest → ∃ c cs n, t.text ++ rest = c :: cs ∧
        piece c cs = ⟨some (t.kind, t.lexeme.toList), n, rest⟩)
      (tail : Rereadable ts) : Rereadable (t :: ts)

theorem Rereadable.of_spelled {ts : List Token} (h : ∀ t ∈ ts, t.Spelled) : Rereadable ts := by
  induction ts with
  | nil => exact .nil
  | cons t ts ih =>
    obtain ⟨ht, hts⟩ := List.forall_mem_cons.mp h
    exact .cons (fun rest hrest => ht rest hrest.1) (ih hts)

theorem mem_intercalate {c : Char} {ts : List Token}
    (h : c ∈ [' '].intercalate (ts.map Token.text)) : c = ' ' ∨ ∃ u ∈ ts, c ∈ u.text := by
  induction ts with
  | nil => simp at h
  | cons t ts ih =>
    cases ts with
    | nil => exact .inr ⟨t, by simp, by simpa using h⟩
    | cons u us =>
      rw [List.map_cons, List.map_cons, List.intercalate_cons_cons, ← List.map_cons] at h
      simp only [List.mem_append, List.mem_singleton] at h
      rcases h with (htext | hspace) | hrest
      · exact .inr ⟨t, by simp, htext⟩
      · exact .inl hspace
      · rcases ih hrest with hspace | ⟨v, hv, hc⟩
        · exact .inl hspace
        · exact .inr ⟨v, List.mem_cons_of_mem t hv, hc⟩

-- Such tokens with a space between any two of them are read as themselves, but for their lines.
theorem lexFrom_of_rereadable {ts : List Token} (h : Rereadable ts) (line : Nat) :
    (lexFrom line ([' '].intercalate (ts.map Token.text))).map Token.unlined =
      ts.map Token.unlined ++ [⟨.eof, "EOF", 0⟩] := by
  induction h generalizing line with
  | nil =>
    rw [List.map_nil, List.intercalate_nil, lexFrom]
    rfl
  | @cons t ts head tail ih =>
    have hstep : ∀ rest, Follows ts rest → ∃ line', (lexFrom line (t.text ++ rest)).map
        Token.unlined = t.unlined :: (lexFrom line' rest).map Token.unlined := by
      intro rest hrest
      obtain ⟨c, cs, n, htext, hpiece⟩ := head rest hrest
      refine ⟨line + n, ?_⟩
      rw [htext, lexFrom_of_piece hpiece, List.map_cons, String.ofList_toList]
      rfl
    cases ts with
    | nil =>
      obtain ⟨line', hline⟩ := hstep [] (by simp [Follows, Breaks])
      rw [List.append_nil] at hline
      rw [List.map_cons, List.map_nil, List.intercalate_singleton, hline, lexFrom]
      rfl
    | cons u us =>
      have hfollows : Follows (u :: us) (' ' :: [' '].intercalate ((u :: us).map Token.text)) := by
        refine ⟨by simp [Breaks], fun c hc => ?_⟩
        exact (List.mem_cons.mp hc).elim .inl mem_intercalate
      obtain ⟨line', hline⟩ := hstep _ hfollows
      rw [List.map_cons, List.map_cons, List.intercalate_cons_cons, List.append_assoc]
      rw [List.singleton_append, ← List.map_cons, hline, lexFrom_space, ih line']
      rfl

-- Spelled tokens with a space between any two of them are read as themselves, but for their
-- lines.
theorem lexFrom_text {ts : List Token} (h : ∀ t ∈ ts, t.Spelled) (line : Nat) :
    (lexFrom line ([' '].intercalate (ts.map Token.text))).map Token.unlined =
      ts.map Token.unlined ++ [⟨.eof, "EOF", 0⟩] :=
  lexFrom_of_rereadable (.of_spelled h) line

-- Whether a text as a whole is read as a token of a class.
def rereads (kind : TokenKind) (s : String) : Bool :=
  match s.toList with
  | [] => false
  | c :: cs => (piece c cs).token == some (kind, c :: cs)

theorem spelled_of_rereads {kind : TokenKind} {s : String} (h : rereads kind s = true)
    (hother : kind ≠ .other) (line : Nat) : Token.Spelled ⟨kind, s, line⟩ := by
  unfold rereads at h
  split at h
  · cases h
  · next c cs hs =>
    have hspelled := piece_spelled line (eq_of_beq h) fun h => absurd h hother
    rwa [← hs, String.ofList_toList] at hspelled

end Lexer

namespace Token

@[simp]
theorem spelled_mark {kind : TokenKind} (h : kind.spelling ≠ "") : (mark kind).Spelled := by
  refine Lexer.spelled_of_rereads ?_ ?_ 0
  · cases kind with
    | id | number | string | typeName | other | eof => exact absurd rfl h
    | _ => decide
  · rintro rfl
    exact h rfl

theorem spelled_of_lex {source : String} {t : Token} (ht : t ∈ lex source)
    (hother : t.kind ≠ .other) (heof : t.kind ≠ .eof) : t.Spelled :=
  Lexer.spelled_of_mem_lexFrom t ht hother heof

-- Whether a token can be read again does not depend on its line.
theorem Spelled.congr {t u : Token} (h : t.Spelled) (hkind : u.kind = t.kind)
    (hlexeme : u.lexeme = t.lexeme) : u.Spelled := by
  intro rest hrest
  rw [text, hkind, hlexeme]
  exact h rest hrest

end Token

end Parlance
