import Parlance.Diagnostic
import Parlance.Proofs.Printing.Spelling
import Parlance.Proofs.Text.Line

namespace Parlance

namespace Lexer

-- What stands between two tokens, in front of the text `after`: blanks, comments that are
-- closed, and notes. A note has all that is left of its line.
inductive Gap : List Char → List Char → Prop
  | nil {after : List Char} : Gap [] after
  | blank {c : Char} {cs after : List Char} (hc : c = ' ' ∨ c = '\t' ∨ c = '\r' ∨ c = '\n')
      (rest : Gap cs after) : Gap (c :: cs) after
  | comment {body cs after : List Char} (hbody : ¬ ['*', '/'] <:+: body) (rest : Gap cs after) :
      Gap ('/' :: '*' :: (body ++ '*' :: '/' :: cs)) after
  | note {body cs after : List Char} (hbody : '\n' ∉ body)
      (hend : ∀ c ∈ (cs ++ after).head?, c = '\n') (rest : Gap cs after) :
      Gap ('#' :: (body ++ cs)) after

-- Characters that are found on the line they are shown on.
def Solid (cs : List Char) : Prop :=
  ∀ c ∈ cs, c ≠ '\n' ∧ c ≠ '\r'

theorem Solid.count {cs : List Char} (h : Solid cs) : cs.count '\n' = 0 :=
  List.count_eq_zero.mpr fun hmem => (h _ hmem).1 rfl

theorem Solid.last {c : Char} {cs : List Char} (h : Solid (c :: cs)) :
    ∃ d ∈ (c :: cs).getLast?, d ≠ '\n' ∧ d ≠ '\r' := by
  refine ⟨_, List.getLast?_eq_some_getLast (List.cons_ne_nil c cs), ?_⟩
  exact h _ (List.getLast_mem _)

theorem solid_of_isDigit {c : Char} (h : c.isDigit = true) : c ≠ '\n' ∧ c ≠ '\r' := by
  constructor <;> (rintro rfl; cases h)

theorem solid_of_isWordPart {c : Char} (h : isWordPart c = true) : c ≠ '\n' ∧ c ≠ '\r' := by
  constructor <;> (rintro rfl; cases h)

theorem solid_of_ofPair? {c d : Char} {kind : TokenKind} (h : TokenKind.ofPair? c d = some kind) :
    d ≠ '\n' ∧ d ≠ '\r' := by
  unfold TokenKind.ofPair? at h
  split at h <;> first | (cases h; done) | exact ⟨by decide, by decide⟩

-- A piece of a text, with the characters that it takes.
structure Piece.Takes (p : Piece) (text taken : List Char) : Prop where
  split : text = taken ++ p.rest
  newlines : p.newlines = taken.count '\n'
  blank : p.token = none → ∀ cs after, p.rest = cs ++ after → Gap cs after →
    Gap (taken ++ cs) after
  token : ∀ kind lexeme, p.token = some (kind, lexeme) →
    (∀ line, taken = Token.text ⟨kind, String.ofList lexeme, line⟩) ∧
      ∃ c ∈ taken.getLast?, c ≠ '\n' ∧ c ≠ '\r'

theorem Piece.Takes.count {p : Piece} {text taken : List Char} (h : p.Takes text taken) :
    text.count '\n' = p.newlines + p.rest.count '\n' := by
  rw [h.split, List.count_append, h.newlines]

theorem takes_single {kind : TokenKind} {c : Char} {cs rest text : List Char}
    (htext : text = c :: cs ++ rest) (hkind : kind ≠ .string) (h : Solid (c :: cs)) :
    (Piece.single kind (c :: cs) rest).Takes text (c :: cs) where
  split := htext
  newlines := h.count.symm
  blank := by rintro ⟨⟩
  token := by
    rintro _ _ ⟨⟩
    exact ⟨fun line => by simp [Token.text, hkind], h.last⟩

theorem takes_blank {newlines : Nat} {taken rest text : List Char} (htext : text = taken ++ rest)
    (hnewlines : newlines = taken.count '\n')
    (h : ∀ cs after, rest = cs ++ after → Gap cs after → Gap (taken ++ cs) after) :
    (Piece.blank newlines rest).Takes text taken where
  split := htext
  newlines := hnewlines
  blank _ := h
  token := by rintro _ _ ⟨⟩

-- A comment ends with the first `*/` in it.
theorem closeComment_split {n m : Nat} {cs rest : List Char}
    (h : closeComment n cs = some (m, rest)) :
    ∃ body, cs = body ++ '*' :: '/' :: rest ∧ m = n + body.count '\n' ∧
      ¬ ['*', '/'] <:+: body := by
  fun_induction closeComment n cs with
  | case1 => cases h
  | case2 n rest =>
    cases h
    exact ⟨[], rfl, rfl, by simp⟩
  | case3 n c cs hne ih =>
    obtain ⟨body, rfl, rfl, hbody⟩ := ih h
    refine ⟨c :: body, rfl, ?_, ?_⟩
    · by_cases hc : c = '\n'
      · simp [hc]
        omega
      · simp [hc]
    · rw [List.infix_cons_iff]
      rintro (hfirst | hinfix)
      · obtain ⟨rfl, hslash⟩ := List.cons_prefix_cons.mp hfirst
        cases body with
        | nil => simp at hslash
        | cons d body =>
          obtain ⟨rfl, -⟩ := List.cons_prefix_cons.mp hslash
          exact hne _ rfl rfl
      · exact hbody hinfix

theorem slash_takes (cs : List Char) : ∃ taken, (slash cs).Takes ('/' :: cs) taken := by
  have hslash : Solid ['/'] := by simp [Solid]
  unfold slash
  split
  · next body =>
    split
    · next newlines rest hclose =>
      obtain ⟨body, rfl, rfl, hbody⟩ := closeComment_split hclose
      refine ⟨'/' :: '*' :: (body ++ ['*', '/']), takes_blank (by simp) ?_ ?_⟩
      · simp [List.count_append]
      · intro cs after _ hgap
        simpa using Gap.comment hbody hgap
    · exact ⟨_, takes_single rfl (by decide) hslash⟩
  · exact ⟨_, takes_single rfl (by decide) hslash⟩

theorem string_takes (cs : List Char) : ∃ taken, (string cs).Takes ('"' :: cs) taken := by
  have hsplit : cs = cs.takeWhile (· ≠ '"') ++ cs.dropWhile (· ≠ '"') :=
    List.takeWhile_append_dropWhile.symm
  unfold string
  split
  · exact ⟨_, takes_single rfl (by decide) (by simp [Solid])⟩
  · next q rest hdrop =>
    have hquote : q = '"' := by
      have := List.head?_dropWhile_not (· ≠ '"') cs
      rw [hdrop] at this
      simpa using this
    subst hquote
    refine ⟨'"' :: (cs.takeWhile (· ≠ '"') ++ ['"']), ?_, ?_, ?_, ?_⟩
    · rw [hdrop] at hsplit
      simpa using hsplit
    · simp [List.count_append]
    · rintro ⟨⟩
    · rintro _ _ ⟨⟩
      refine ⟨fun line => by simp [Token.text], '"', ?_, by decide, by decide⟩
      simp [List.getLast?_cons]

theorem word_takes {c : Char} (cs : List Char) (hc : isWordStart c = true) :
    ∃ taken, (word c cs).Takes (c :: cs) taken := by
  have hstart : isWordPart c = true := by
    simp only [isWordStart, isWordPart, Char.isAlphanum, Bool.or_eq_true] at hc ⊢
    exact hc.imp_left .inl
  refine ⟨c :: cs.takeWhile isWordPart, takes_single (by simp) (ofWord_ne_string _) ?_⟩
  refine List.forall_mem_cons.mpr ⟨solid_of_isWordPart hstart, fun d hd => ?_⟩
  exact solid_of_isWordPart (of_mem_takeWhile d hd)

theorem number_takes {c : Char} (cs : List Char) (hc : c.isDigit = true ∨ c = '.') :
    ∃ taken, (number c cs).Takes (c :: cs) taken := by
  have hfirst : c ≠ '\n' ∧ c ≠ '\r' := by
    rcases hc with hdigit | rfl
    · exact solid_of_isDigit hdigit
    · exact ⟨by decide, by decide⟩
  have hwhole : Solid (c :: cs.takeWhile Char.isDigit) :=
    List.forall_mem_cons.mpr ⟨hfirst, fun d hd => solid_of_isDigit (of_mem_takeWhile d hd)⟩
  have hinteger : (Piece.single .number (c :: cs.takeWhile Char.isDigit)
      (cs.dropWhile Char.isDigit)).Takes (c :: cs) (c :: cs.takeWhile Char.isDigit) :=
    takes_single (by simp) (by decide) hwhole
  simp only [number, digits]
  split
  · next d more hdrop =>
    split
    · refine ⟨_, takes_single (c := c) ?_ (by decide) ?_⟩
      · have hsplit : cs.takeWhile Char.isDigit ++ cs.dropWhile Char.isDigit = cs :=
          List.takeWhile_append_dropWhile
        rw [hdrop] at hsplit
        simp [List.takeWhile_append_dropWhile, hsplit]
      · refine List.forall_mem_append.mpr ⟨hwhole, List.forall_mem_cons.mpr ⟨by decide, ?_⟩⟩
        exact fun e he => solid_of_isDigit (of_mem_takeWhile e he)
    · exact ⟨_, hinteger⟩
  · exact ⟨_, hinteger⟩

theorem symbol_takes {c : Char} (cs : List Char) (hc : c ≠ '\n' ∧ c ≠ '\r') :
    ∃ taken, (symbol c cs).Takes (c :: cs) taken := by
  have hsingle : Solid [c] := by simpa [Solid] using hc
  unfold symbol
  split
  · exact ⟨_, takes_single rfl (ofSymbol_ne_string c) hsingle⟩
  · next d rest =>
    split
    · next kind hpair =>
      have hkind : kind ≠ .string := by
        rintro rfl
        exact ofPair?_ne_string c d hpair
      refine ⟨_, takes_single rfl hkind ?_⟩
      exact List.forall_mem_cons.mpr ⟨hc, by simpa using solid_of_ofPair? hpair⟩
    · exact ⟨_, takes_single rfl (ofSymbol_ne_string c) hsingle⟩

-- Every piece is the text of a token or part of a gap, and has counted its line breaks.
theorem piece_takes (c : Char) (cs : List Char) : ∃ taken, (piece c cs).Takes (c :: cs) taken := by
  unfold piece
  split
  · next hc =>
    subst hc
    exact ⟨['\n'], takes_blank rfl rfl fun _ _ _ hgap => .blank (by simp) hgap⟩
  split
  · next hc =>
    refine ⟨[c], takes_blank rfl ?_ fun _ _ _ hgap => .blank ?_ hgap⟩
    · rcases hc with rfl | rfl | rfl <;> rfl
    · rcases hc with rfl | rfl | rfl <;> simp
  split
  · next hc =>
    subst hc
    refine ⟨'#' :: cs.takeWhile (· ≠ '\n'), takes_blank (by simp) ?_ ?_⟩
    · exact (List.count_eq_zero.mpr (by simpa using Text.not_mem_takeWhile cs)).symm
    · intro gap after hrest hgap
      refine .note (Text.not_mem_takeWhile cs) ?_ hgap
      rw [← hrest]
      rcases Text.dropWhile_cases cs with ⟨-, h⟩ | ⟨-, h⟩
      · rw [h]
        simp
      · rw [h]
        simp
  split
  · next hc =>
    subst hc
    exact slash_takes cs
  split
  · next hc =>
    subst hc
    exact string_takes cs
  split
  · next hc => exact number_takes cs (hc.imp_right And.left)
  split
  · next hc => exact word_takes cs hc
  · next hnewline hblank _ _ _ _ _ =>
    exact symbol_takes cs ⟨hnewline, fun h => hblank (.inr (.inl h))⟩

-- The text of tokens, each with the gap behind it.
def spread (spots : List (Token × List Char)) : List Char :=
  spots.flatMap fun spot => spot.1.text ++ spot.2

theorem spread_cons (t : Token) (gap : List Char) (spots : List (Token × List Char)) :
    spread ((t, gap) :: spots) = t.text ++ (gap ++ spread spots) := by
  simp [spread]

-- A token in a text, between what is up to its last character and what comes after that. The
-- first character of the text is on line `line`.
structure Spot (line : Nat) (upTo : List Char) (t : Token) (gap after : List Char) : Prop where
  kind : t.kind ≠ .eof
  last : ∃ c ∈ t.text.getLast?, c ≠ '\n' ∧ c ≠ '\r'
  behind : Gap gap after
  place : t.line = line + upTo.count '\n'

-- A text whose first character is on line `line` is a gap, and tokens with gaps behind them.
structure Laid (line : Nat) (cs margin : List Char) (spots : List (Token × List Char)) :
    Prop where
  text : cs = margin ++ spread spots
  tokens : lexFrom line cs =
    spots.map Prod.fst ++ [⟨.eof, "EOF", line + cs.count '\n'⟩]
  first : Gap margin (spread spots)
  spot : ∀ before t gap after, spots = before ++ (t, gap) :: after →
    Spot line (margin ++ spread before ++ t.text) t gap (spread after)

theorem Laid.nil (line : Nat) : Laid line [] [] [] where
  text := rfl
  tokens := by
    rw [lexFrom]
    rfl
  first := .nil
  spot before t gap after h := by simp at h

-- Something that is skipped in front of a text becomes part of its margin.
theorem Laid.skip {line : Nat} {c : Char} {cs taken margin : List Char}
    {spots : List (Token × List Char)} (htakes : (piece c cs).Takes (c :: cs) taken)
    (hblank : (piece c cs).token = none)
    (h : Laid (line + (piece c cs).newlines) (piece c cs).rest margin spots) :
    Laid line (c :: cs) (taken ++ margin) spots where
  text := by rw [htakes.split, h.text, List.append_assoc]
  tokens := by
    rw [lexFrom, hblank]
    simp only [h.tokens, htakes.count, Nat.add_assoc]
  first := htakes.blank hblank margin _ h.text h.first
  spot before t gap after hspots := by
    have hspot := h.spot before t gap after hspots
    refine { hspot with place := ?_ }
    rw [hspot.place, htakes.newlines]
    simp only [List.count_append]
    omega

-- A token in front of a text takes the margin of the text as the gap behind it.
theorem Laid.cons {line : Nat} {c : Char} {cs taken margin lexeme : List Char} {kind : TokenKind}
    {spots : List (Token × List Char)} (htakes : (piece c cs).Takes (c :: cs) taken)
    (htoken : (piece c cs).token = some (kind, lexeme))
    (h : Laid (line + (piece c cs).newlines) (piece c cs).rest margin spots) :
    Laid line (c :: cs) []
      ((⟨kind, String.ofList lexeme, line + (piece c cs).newlines⟩, margin) :: spots) := by
  obtain ⟨htext, hlast⟩ := htakes.token kind lexeme htoken
  rw [htext (line + (piece c cs).newlines)] at hlast
  have hnewlines := htakes.newlines
  rw [htext (line + (piece c cs).newlines)] at hnewlines
  refine ⟨?_, ?_, .nil, ?_⟩
  · rw [htakes.split, h.text, spread_cons, ← htext]
    rfl
  · rw [lexFrom, htoken]
    simp only [h.tokens, htakes.count, Nat.add_assoc]
    rfl
  · intro before t gap after hspots
    cases before with
    | nil =>
      cases hspots
      refine ⟨piece_ne_eof c cs _ htoken, hlast, h.first, ?_⟩
      exact congrArg (line + ·) hnewlines
    | cons spot before =>
      obtain ⟨rfl, hrest⟩ := List.cons.inj hspots
      have hspot := h.spot before t gap after hrest
      refine { hspot with place := ?_ }
      rw [hspot.place]
      simp only [spread_cons, List.nil_append, List.count_append]
      omega

theorem exists_laid (line : Nat) (cs : List Char) : ∃ margin spots, Laid line cs margin spots := by
  fun_induction lexFrom line cs with
  | case1 line => exact ⟨[], [], .nil line⟩
  | case2 line c cs p line' hblank ih =>
    obtain ⟨taken, htakes⟩ := piece_takes c cs
    obtain ⟨margin, spots, h⟩ := ih
    exact ⟨taken ++ margin, spots, h.skip htakes hblank⟩
  | case3 line c cs p line' kind lexeme htoken ih =>
    obtain ⟨taken, htakes⟩ := piece_takes c cs
    obtain ⟨margin, spots, h⟩ := ih
    exact ⟨[], _, h.cons htakes htoken⟩

end Lexer

open Lexer

-- A text is made of the texts of its tokens and of gaps around them. The line of a token is the
-- one of its last character, the line of the end is the last one, and a diagnostic at the line
-- of a token shows the line that this character is on, with carets under all of it but the
-- blanks at its ends.
theorem tokens_have_their_lines (source : String) :
    ∃ (margin : List Char) (spots : List (Token × List Char)),
      source.toList = margin ++ spread spots ∧
      lex source = spots.map Prod.fst ++ [⟨.eof, "EOF", 1 + source.toList.count '\n'⟩] ∧
      Gap margin (spread spots) ∧
      ∀ before t gap after, spots = before ++ (t, gap) :: after →
        t.kind ≠ .eof ∧ Gap gap (spread after) ∧
        t.line = 1 + (margin ++ spread before ++ t.text).count '\n' ∧
        ∃ shown : String, (Text.lines source)[t.line - 1]? = some shown ∧
          Text.IsLineAt shown.toList (margin ++ spread before ++ t.text) (gap ++ spread after) ∧
          ∀ name stage message help,
            Diagnostic.render name source ⟨stage, message, some t.line, help⟩ =
              "error[" ++ stage.code ++ "]: " ++ message ++ "\n" ++
                s!"  --> {name}:{t.line}\n   |\n" ++
                Diagnostic.column t.line ++ " | " ++ shown ++ "\n   | " ++
                String.ofList (Text.leadingSpace shown.toList ++
                  List.replicate (max 1 (Text.trimEnd (Text.trimStart shown.toList)).length) '^') ++
                "\n" ++ help.elim "" fun help => s!"\nhelp: {help}\n" := by
  obtain ⟨margin, spots, h⟩ := exists_laid 1 source.toList
  refine ⟨margin, spots, h.text, h.tokens, h.first, fun before t gap after hspots => ?_⟩
  have hspot := h.spot before t gap after hspots
  obtain ⟨c, hc, hnewline, hreturn⟩ := hspot.last
  obtain ⟨text, htext⟩ := List.getLast?_eq_some_iff.mp hc
  have hsource : source.toList =
      (margin ++ spread before ++ text) ++ c :: (gap ++ spread after) := by
    rw [h.text, hspots]
    simp [spread, htext]
  obtain ⟨shown, hshown, hline⟩ := Text.exists_line hsource hnewline hreturn
  have hcount : t.line - 1 = (margin ++ spread before ++ text).count '\n' := by
    rw [hspot.place, htext]
    simp [List.count_append, hnewline]
  rw [← hcount] at hshown
  rw [List.append_assoc, ← htext] at hline
  refine ⟨hspot.kind, hspot.behind, hspot.place, shown, hshown, hline, ?_⟩
  intro name stage message help
  cases help <;>
    simp [Diagnostic.render, Diagnostic.excerpt, hshown, ToString.toString, String.append_assoc]

end Parlance
