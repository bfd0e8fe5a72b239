import Parlance.Proofs.Grammar.Rounds

namespace Parlance.Grammar

section

variable {V : Verdicts} {n fuel fuel' depth : Nat} {s : State} {r r' : Readers}
  {block block' : BlockReader}

theorem parenthesized_take (hr : r.Take V s.left r') :
    Agree V s.left s (parenthesized r) (parenthesized r') := by
  refine .expect (by decide) fun _ t ht => ?_
  refine (hr.full ht).bind fun e u hu => ?_
  exact .expect (by decide) fun _ v hv => .pure (by omega)

theorem branch_take (hr : r.Take V s.left r')
    (hblock : ∀ seed, Takes V s.left (block seed) (block' seed))
    (hkind : s.current.kind ≠ .eof) : Agree V s.left s (branch r block) (branch r' block') := by
  refine .advance hkind fun t ht => ?_
  refine (parenthesized_take (hr.mono (Nat.le_of_lt ht))).bind fun condition u hu => ?_
  refine (hblock [] (by omega)).bind fun yes v hv => ?_
  exact optional_agree (by decide) ((hblock []).mono (by omega)) fun no w hw => .pure (by omega)

theorem loop_take (hr : r.Take V s.left r')
    (hblock : ∀ seed, Takes V s.left (block seed) (block' seed))
    (hkind : s.current.kind ≠ .eof) : Agree V s.left s (loop r block) (loop r' block') := by
  refine .advance hkind fun t ht => ?_
  refine (parenthesized_take (hr.mono (Nat.le_of_lt ht))).bind fun condition u hu => ?_
  exact (hblock [] (by omega)).bind fun body v hv => .pure (by omega)

theorem each_take (hr : r.Take V s.left r')
    (hblock : ∀ seed, Takes V s.left (block seed) (block' seed))
    (hkind : s.current.kind ≠ .eof) : Agree V s.left s (each r block) (each r' block') := by
  refine .advance hkind fun t ht => ?_
  refine .expect (by decide) fun _ u hu => ?_
  refine (declaration_take (hr.plain.mono (by omega))).bind fun iterator v hv => ?_
  refine .expect (by decide) fun _ w hw => ?_
  refine (hr.full (by omega)).bind fun iterable w hw => ?_
  refine .expect (by decide) fun _ w hw => ?_
  exact (hblock _ (by omega)).bind fun body w hw => .pure (by omega)

theorem paramsRound_agree {again again' : List String → Parse (List Param)}
    (hr : r.Take V s.left r') (hagain : ∀ names, Proceeds V s.left (again names) (again' names))
    (names : List String) :
    Agree V (s.left + 1) s (paramsRound r names again) (paramsRound r' names again') := by
  refine .check ?_
  split
  · next hid =>
    have hkind : s.current.kind = .id := of_decide_eq_true hid
    refine .advance (by rw [hkind]; decide) fun t ht => ?_
    refine .expect (by decide) fun _ u hu => ?_
    refine .expectType fun ty v hv => ?_
    refine optional_agree (by decide) (hr.full.mono (by omega)) fun default w hw => ?_
    split
    · exact .fail _
    · refine .accept (by decide) (fun _ z hz => ?_) fun _ => .pure (by omega)
      exact (hagain _ (by omega)).bind fun ps z hz => .pure (by omega)
  · exact .pure (Nat.lt_succ_self _)

theorem params_proceeds (hr : r.Take V s.left r') (hfuel : Fueled V (s.left + 1) fuel fuel')
    (names : List String) :
    Agree V (s.left + 1) s (params r names fuel) (params r' names fuel') := by
  refine Fueled.loop (f := fun fuel names => params r names fuel)
    (g := fun fuel names => params r' names fuel) (fun _ => rfl) (fun _ => rfl) ?_
    hfuel (Nat.le_refl _) names
  intro t k k' ht hless hagain
  exact paramsRound_agree (hr.mono ht) hagain

theorem function_take (hr : r.Take V s.left r')
    (hblock : ∀ seed, Takes V s.left (block seed) (block' seed))
    (hfuel : Fueled V s.left fuel fuel') (hkind : s.current.kind ≠ .eof) :
    Agree V s.left s (function r block fuel) (function r' block' fuel') := by
  refine .advance hkind fun t ht => ?_
  refine .expect (by decide) fun name u hu => ?_
  refine .declare fun v hv => ?_
  refine .expect (by decide) fun _ w hw => ?_
  refine (params_proceeds (hr.mono (by omega)) (hfuel.mono (by omega)) []).bind fun ps w hw => ?_
  refine .expect (by decide) fun _ w hw => ?_
  refine .expect (by decide) fun _ w hw => ?_
  refine .expectType fun returns w hw => ?_
  exact (hblock _ (by omega)).bind fun body w hw => .pure (by omega)

theorem ret_take (hr : r.Take V s.left r') (hkind : s.current.kind ≠ .eof) :
    Agree V s.left s (ret r) (ret r') := by
  refine .advance hkind fun t ht => .peek ?_
  split
  · exact .pure ht
  · exact .pure ht
  · exact .pure ht
  · exact (Agree.map (hr.plain ht)).bind fun value u hu => .pure (by omega)

theorem client_take (hr : r.Take V s.left r') (hkind : s.current.kind ≠ .eof) :
    Agree V s.left s (client r) (client r') := by
  refine .advance hkind fun t ht => ?_
  refine .expect (by decide) fun name u hu => ?_
  refine .declare fun v hv => ?_
  refine .expect (by decide) fun _ w hw => ?_
  refine (hr.sum (by omega)).bind fun host w hw => ?_
  refine .expect (by decide) fun _ w hw => ?_
  refine (hr.sum (by omega)).bind fun port w hw => ?_
  exact .expect (by decide) fun _ w hw => .pure (by omega)

theorem server_take (hr : r.Take V s.left r') (hkind : s.current.kind ≠ .eof) :
    Agree V s.left s (server r) (server r') := by
  refine .advance hkind fun t ht => ?_
  refine .expect (by decide) fun name u hu => ?_
  refine .declare fun v hv => ?_
  refine .expect (by decide) fun _ w hw => ?_
  refine .expect (by decide) fun handler w hw => .resolve fun _ => ?_
  refine .expect (by decide) fun _ w hw => ?_
  refine (hr.sum (by omega)).bind fun description w hw => ?_
  refine .expect (by decide) fun _ w hw => ?_
  refine (hr.sum (by omega)).bind fun host w hw => ?_
  refine .expect (by decide) fun _ w hw => ?_
  refine (hr.sum (by omega)).bind fun port w hw => ?_
  exact .expect (by decide) fun _ w hw => .pure (by omega)

-- An expression can be all of a statement, but a block stands behind a token of it.
theorem statement_take (hr : r.Take V (s.left + 1) r')
    (hblock : ∀ seed, Takes V s.left (block seed) (block' seed))
    (hfuel : Fueled V s.left fuel fuel') :
    Agree V s.left s (statement r block fuel) (statement r' block' fuel') := by
  have hinner : r.Take V s.left r' := hr.mono (Nat.le_succ _)
  refine .peek ?_
  split
  · exact .map (registered_take hinner.plain)
  · next hkind => exact branch_take hinner hblock (by rw [hkind]; decide)
  · next hkind => exact loop_take hinner hblock (by rw [hkind]; decide)
  · next hkind => exact each_take hinner hblock (by rw [hkind]; decide)
  · next hkind => exact .advance (by rw [hkind]; decide) fun t ht => .pure ht
  · next hkind => exact .advance (by rw [hkind]; decide) fun t ht => .pure ht
  · next hkind => exact function_take hinner hblock hfuel (by rw [hkind]; decide)
  · next hkind => exact ret_take hinner (by rw [hkind]; decide)
  · next hkind =>
    refine .advance (by rw [hkind]; decide) fun t ht => ?_
    exact .map ((hblock [] ht).mono (Nat.le_of_lt ht))
  · next hkind =>
    refine .advance (by rw [hkind]; decide) fun t ht => ?_
    exact (hblock [] ht).bind fun body u hu => .pure (by omega)
  · next hkind => exact client_take hinner (by rw [hkind]; decide)
  · next hkind => exact server_take hinner (by rw [hkind]; decide)
  · exact .map (hr.full (Nat.lt_succ_self _))

theorem sequenceRound_agree {one one' : Parse Stmt} {again again' : Parse (List Stmt)}
    (hone : Takes V (s.left + 1) one one') (hagain : Proceeds V s.left again again') :
    Agree V (s.left + 1) s (sequenceRound one again) (sequenceRound one' again') := by
  refine .peek ?_
  split
  · refine .accept (by decide) (fun _ t ht => (hagain ht).mono (by omega)) fun _ => ?_
    refine (hone (Nat.lt_succ_self _)).bind fun stmt t ht => ?_
    refine .accept (by decide) (fun _ u hu => ?_) fun _ => ?_
    · exact (hagain (by omega)).bind fun rest v hv => .pure (by omega)
    · exact (hagain ht).bind fun rest v hv => .pure (by omega)
  · split
    · exact .pure (Nat.lt_succ_self _)
    · exact .fail _

theorem sequence_proceeds {one one' : Parse Stmt} (hone : Takes V (s.left + 1) one one')
    (hfuel : Fueled V (s.left + 1) fuel fuel') :
    Agree V (s.left + 1) s (sequence one fuel) (sequence one' fuel') := by
  refine Fueled.loop (f := fun fuel (_ : Unit) => sequence one fuel)
    (g := fun fuel _ => sequence one' fuel) (fun _ => rfl) (fun _ => rfl) ?_ hfuel
    (Nat.le_refl _) ()
  intro t k k' ht hless hagain _
  exact sequenceRound_agree (hone.mono (Nat.succ_le_succ ht)) (hagain ())

theorem block_take {body body' : Nat → Parse (List Stmt)}
    (hbody : Proceeds V s.left (body (depth + 1)) (body' (depth + 1))) (seed : Layer) :
    Agree V s.left s (Grammar.block body depth seed) (Grammar.block body' depth seed) := by
  refine .expect (by decide) fun _ t ht => ?_
  refine (Agree.inBlock (n := t.left + 1) fun u hu => ?_).bind fun stmts u hu =>
    .expect (by decide) fun _ v hv => .pure (by omega)
  exact .nested ((hbody (by omega)).mono (by omega))

-- Statements need one turn more than the expressions in them, and take a token for the two of
-- a block.
theorem statements_proceed (fuel fuel' depth : Nat) (s : State)
    (hfuel : Fueled V (2 * s.left + 3) fuel fuel') :
    Agree V (s.left + 1) s (statements fuel depth) (statements fuel' depth) := by
  induction fuel generalizing fuel' depth s with
  | zero =>
    obtain ⟨rfl, hcounts⟩ := hfuel.zero
    exact .outOfFuel hcounts
  | succ fuel ih =>
    obtain ⟨k, rfl, hless⟩ := hfuel.succ
    refine sequence_proceeds (fun t ht => ?_) (hless.mono (by omega))
    have hexprs := exprs_take (V := V) fuel k depth
    have hr : (readers fuel depth).Take V (t.left + 1) (readers k depth) :=
      readers_take (fun u hu => hexprs.1 u (hless.mono (by omega)))
        (fun u hu => hexprs.2 u (hless.mono (by omega))) (hless.mono (by omega))
    refine statement_take hr (fun seed u hu => ?_) (hless.mono (by omega))
    exact block_take (fun v hv => ih k (depth + 1) v (hless.mono (by omega))) seed

theorem program_agrees (s : State) (hfuel : Fueled V (2 * s.left + 3) fuel fuel') :
    Agree V (s.left + 1) s (program fuel) (program fuel') := by
  refine (statements_proceed fuel fuel' 0 s hfuel).bind fun body t ht => .check ?_
  split
  · exact .pure ht
  · exact .unexpected _

end

theorem State.left_start_le (tokens : List Token) :
    (State.start tokens).left ≤ tokens.length := by
  cases tokens with
  | nil => exact Nat.le_refl 0
  | cons token rest => exact List.countP_le_length

-- Readers that may be used only where fewer than `n` tokens are left.
def Readers.below (n : Nat) (r : Readers) : Readers :=
  ⟨Grammar.below n r.full, Grammar.below n r.plain, Grammar.below n r.sum⟩

variable {α : Type}

section

variable {V : Verdicts} {n : Nat} {x : Parse α}

theorem Takes.guarded (h : Takes V n x x) : Takes V n x (below n x) :=
  fun _ ht => (h ht).guarded ht

theorem Proceeds.guarded (h : Proceeds V n x x) : Proceeds V n x (below n x) :=
  fun _ ht => (h ht).guarded ht

theorem Readers.Take.guarded {r : Readers} (h : r.Take V n r) : r.Take V n (r.below n) :=
  ⟨h.full.guarded, h.plain.guarded, h.sum.guarded⟩

-- Whatever the fuel is, a reader that does not stop takes a token, or gives none back.
theorem unary_takes (fuel depth n : Nat) : Takes .any n (unary fuel depth) (unary fuel depth) :=
  fun s _ => (exprs_take fuel fuel depth).2 s (.refl _ fuel)

theorem readers_taking (fuel depth n : Nat) :
    (readers fuel depth).Take .any n (readers fuel depth) :=
  readers_take (fun s _ => (exprs_take fuel fuel depth).1 s (.refl _ fuel))
    (unary_takes fuel depth n) (.refl _ fuel)

theorem statements_proceeding (fuel depth n : Nat) :
    Proceeds .any n (statements fuel depth) (statements fuel depth) :=
  fun s _ => statements_proceed fuel fuel depth s (.refl _ fuel)

theorem statement_taking (fuel depth n : Nat) :
    Takes .any n (statement (readers fuel depth) (block (statements fuel) depth) fuel)
      (statement (readers fuel depth) (block (statements fuel) depth) fuel) :=
  fun _ _ => statement_take (readers_taking fuel depth _)
    (fun seed _ _ => block_take (statements_proceeding fuel (depth + 1) _) seed) (.refl _ fuel)

end

-- No loop of the readers comes to another round, and no cycle of them to another turn, without
-- having taken a token: nothing changes when the next one is held back wherever no token has
-- been taken since the last.
structure TakesTokens : Prop where
  -- The loops: expressions and entries with commas between them, operators of a level, what
  -- follows a name, parameters, and statements.
  elements : ∀ fuel depth starts n s, let item := (readers fuel depth).full
    items starts item (n + 1) s = itemsRound starts item (below s.left (items starts item n)) s
  entries : ∀ fuel depth starts n s, let item := entry (readers fuel depth)
    items starts item (n + 1) s = itemsRound starts item (below s.left (items starts item n)) s
  operators : ∀ fuel depth level tighter n e s, level :: tighter <:+ Level.all →
    let operand := Level.parse (unary fuel depth) fuel tighter
    level.chain operand (n + 1) e s =
      level.chainRound operand (fun e => below s.left (level.chain operand n e)) e s
  suffixes : ∀ fuel depth n e s, let r := readers fuel depth
    suffixes r (n + 1) e s = suffixesRound r n (fun e => below s.left (suffixes r n e)) e s
  params : ∀ fuel depth names n s, let r := readers fuel depth
    params r names (n + 1) s =
      paramsRound r names (fun names => below s.left (params r names n)) s
  statements : ∀ fuel depth n s,
    let one := statement (readers fuel depth) (block (statements fuel) depth) fuel
    sequence one (n + 1) s = sequenceRound one (below s.left (sequence one n)) s
  -- The cycles: the value of an assignment, everything inside of an operand, and the statements
  -- of a block. A level of operators comes to the tighter ones instead.
  assignment : ∀ fuel depth s, assignment (fuel + 1) depth s =
    assignmentRound (Level.parse (unary fuel depth) fuel Level.all)
      (below s.left (nested depth (assignment fuel))) s
  levels : ∀ tightest fuel level tighter, Level.parse tightest fuel (level :: tighter) =
    Level.parse tightest fuel tighter >>= level.chain (Level.parse tightest fuel tighter) fuel
  unary : ∀ fuel depth s, unary (fuel + 1) depth s = nested depth (fun depth =>
    unaryRound ((readers fuel depth).below s.left) fuel (below s.left (unary fuel depth))) s
  blocks : ∀ fuel depth s, let r := readers fuel depth
    statement r (block (Grammar.statements fuel) depth) fuel s =
      statement r (block (fun depth => below s.left (Grammar.statements fuel depth)) depth) fuel s

section

variable (fuel depth n : Nat)

theorem items_guarded {item : Parse α} (hitem : ∀ m, Takes .any m item item)
    (starts : TokenKind → Bool) (s : State) :
    items starts item (n + 1) s =
      itemsRound starts item (below s.left (items starts item n)) s := by
  have hagain : Proceeds .any s.left (items starts item n) (items starts item n) :=
    fun t _ => items_proceeds (hitem _) (.refl _ n)
  exact (itemsRound_agree (hitem _) hagain.guarded).same

theorem chain_guarded {level : Level} {operand : Parse Expr}
    (hlevel : level.isOperator .eof = false) (hoperand : ∀ m, Takes .any m operand operand)
    (e : Expr) (s : State) :
    level.chain operand (n + 1) e s =
      level.chainRound operand (fun e => below s.left (level.chain operand n e)) e s := by
  have hagain : ∀ e, Proceeds .any s.left (level.chain operand n e) (level.chain operand n e) :=
    fun e t _ => chain_proceeds hlevel (hoperand _) (.refl _ n) e
  exact (chainRound_agree hlevel (hoperand _) (fun e => (hagain e).guarded) e).same

theorem suffixes_guarded {r : Readers} (hr : ∀ m, r.Take .any m r) (e : Expr) (s : State) :
    suffixes r (n + 1) e s = suffixesRound r n (fun e => below s.left (suffixes r n e)) e s := by
  have hagain : ∀ e, Proceeds .any s.left (suffixes r n e) (suffixes r n e) :=
    fun e t _ => suffixes_proceeds (hr _) (.refl _ n) e
  exact (suffixesRound_agree (hr _) (.refl _ n) (fun e => (hagain e).guarded) e).same

theorem params_guarded {r : Readers} (hr : ∀ m, r.Take .any m r) (names : List String)
    (s : State) :
    params r names (n + 1) s =
      paramsRound r names (fun names => below s.left (params r names n)) s := by
  have hagain : ∀ names, Proceeds .any s.left (params r names n) (params r names n) :=
    fun names t _ => params_proceeds (hr _) (.refl _ n) names
  exact (paramsRound_agree (hr _) (fun names => (hagain names).guarded) names).same

theorem sequence_guarded {one : Parse Stmt} (hone : ∀ m, Takes .any m one one) (s : State) :
    sequence one (n + 1) s = sequenceRound one (below s.left (sequence one n)) s := by
  have hagain : Proceeds .any s.left (sequence one n) (sequence one n) :=
    fun t _ => sequence_proceeds (hone _) (.refl _ n)
  exact (sequenceRound_agree (hone _) hagain.guarded).same

theorem assignment_guarded (s : State) :
    assignment (fuel + 1) depth s =
      assignmentRound (Level.parse (unary fuel depth) fuel Level.all)
        (below s.left (nested depth (assignment fuel))) s := by
  have htarget := (readers_taking fuel depth (s.left + 1)).plain
  have hvalue : Takes .any s.left (nested depth (assignment fuel))
      (nested depth (assignment fuel)) := fun t _ =>
    .nested ((exprs_take fuel fuel (depth + 1)).1 t (.refl _ fuel))
  exact (assignmentRound_agree htarget hvalue.guarded).same

theorem unary_guarded (s : State) :
    unary (fuel + 1) depth s = nested depth (fun depth =>
      unaryRound ((readers fuel depth).below s.left) fuel (below s.left (unary fuel depth))) s := by
  have hr := readers_taking fuel (depth + 1) s.left
  have hunary := unary_takes fuel (depth + 1) s.left
  exact (Agree.nested (unaryRound_agree hr.guarded (.refl _ fuel) hunary.guarded)).same

theorem statement_guarded (s : State) :
    statement (readers fuel depth) (block (statements fuel) depth) fuel s =
      statement (readers fuel depth)
        (block (fun depth => below s.left (statements fuel depth)) depth) fuel s := by
  have hbody := statements_proceeding fuel (depth + 1) s.left
  refine (statement_take (readers_taking fuel depth _) (fun seed t ht => ?_) (.refl _ fuel)).same
  exact block_take (fun u hu => hbody.guarded (by omega)) seed

end

theorem takesTokens : TakesTokens where
  elements fuel depth starts n s :=
    items_guarded n (fun m => (readers_taking fuel depth m).full) starts s
  entries fuel depth starts n s :=
    items_guarded n (fun _ t _ => entry_take (readers_taking fuel depth t.left)) starts s
  operators fuel depth level tighter n e s h := by
    have heof : ∀ l ∈ level :: tighter, l.isOperator .eof = false :=
      fun l hl => all_isOperator_eof l (h.subset hl)
    refine chain_guarded n (heof level List.mem_cons_self) (fun m => ?_) e s
    exact levels_take (fun l hl => heof l (List.mem_cons_of_mem _ hl)) (unary_takes fuel depth m)
      (.refl _ fuel)
  suffixes fuel depth n e s := suffixes_guarded n (readers_taking fuel depth) e s
  params fuel depth names n s := params_guarded n (readers_taking fuel depth) names s
  statements fuel depth n s := sequence_guarded n (statement_taking fuel depth) s
  assignment := assignment_guarded
  levels _ _ _ _ := rfl
  unary := unary_guarded
  blocks := statement_guarded

-- A reader that does not run out of fuel refuses what it does not read.
theorem Agree.refused {x y : Parse α} {n : Nat} {s : State} {stop : Stop}
    (h : Agree .failure n s x y) (hstop : x s = .error stop) : ∃ f, stop = .fault f := by
  have hanswers := h.answers
  rw [hstop] at hanswers
  exact hanswers

-- With fuel for two turns for each token and three more, a program is read or refused, and more
-- fuel makes no difference.
theorem program_fueled (source : String) {fuel fuel' : Nat}
    (hfuel : 2 * (lex source).length + 3 ≤ fuel)
    (hfuel' : 2 * (lex source).length + 3 ≤ fuel') :
    Agree .failure ((State.start (lex source)).left + 1) (.start (lex source)) (program fuel)
      (program fuel') := by
  have hleft := State.left_start_le (lex source)
  exact program_agrees _ (.inr ⟨by omega, by omega⟩)

end Parlance.Grammar

namespace Parlance

open Grammar

-- Every text is read or refused. Each round of a loop and each turn of a cycle of readers takes
-- a token, and at the end of the text nothing but the end comes next. So fuel in proportion to
-- the number of tokens is never used up, and more of it changes nothing.
theorem parsing_ends :
    (∀ s t token, s.rest = [] → advance s = .ok (token, t) →
      t.current.kind = .eof ∧ t.rest = []) ∧
    TakesTokens ∧
    (∀ source fuel, 2 * (lex source).length + 3 ≤ fuel →
      program fuel (.start (lex source)) =
          program (fuelFor (lex source)) (.start (lex source)) ∧
        program fuel (.start (lex source)) ≠ .error .outOfFuel) ∧
    ∀ source, (∃ p, parse source = .ok p) ∨ ∃ f, parse source = .error (.fault f) := by
  have henough : ∀ source, 2 * (lex source).length + 3 ≤ fuelFor (lex source) := by
    intro source
    unfold fuelFor
    omega
  refine ⟨fun s t token hrest h => State.advance_of_rest_nil h hrest, takesTokens,
    fun source fuel hfuel => ?_, fun source => ?_⟩
  · have hagree := program_fueled source hfuel (henough source)
    refine ⟨hagree.same, fun hout => ?_⟩
    obtain ⟨f, hf⟩ := hagree.refused hout
    cases hf
  · have hagree := program_fueled source (henough source) (henough source)
    cases h : program (fuelFor (lex source)) (.start (lex source)) with
    | ok answer => exact .inl ⟨answer.1, by rw [parse, h]; rfl⟩
    | error stop =>
      obtain ⟨f, rfl⟩ := hagree.refused h
      exact .inr ⟨f, by rw [parse, h]; rfl⟩

end Parlance
