import Parlance.Proofs.Grammar.Progress

namespace Parlance.Grammar

-- Two readers agree wherever fewer than `n` tokens are left, and take a token there.
def Takes {α : Type} (V : Verdicts) (n : Nat) (x y : Parse α) : Prop :=
  ∀ ⦃t : State⦄, t.left < n → Agree V t.left t x y

-- Two readers agree wherever fewer than `n` tokens are left, and give no token back.
def Proceeds {α : Type} (V : Verdicts) (n : Nat) (x y : Parse α) : Prop :=
  ∀ ⦃t : State⦄, t.left < n → Agree V (t.left + 1) t x y

structure Readers.Take (V : Verdicts) (n : Nat) (r r' : Readers) : Prop where
  full : Takes V n r.full r'.full
  plain : Takes V n r.plain r'.plain
  sum : Takes V n r.sum r'.sum

-- Fuel of two readers for `n` rounds. If running out of it is an answer, it need not be enough.
def Fueled (V : Verdicts) (n fuel fuel' : Nat) : Prop :=
  fuel = fuel' ∧ V.counts .outOfFuel ∨ n ≤ fuel ∧ n ≤ fuel'

section

variable {α : Type} {V : Verdicts} {n m fuel fuel' depth : Nat} {s : State} {x y : Parse α}
  {r r' : Readers}

theorem Takes.mono (h : Takes V n x y) (hle : m ≤ n) : Takes V m x y :=
  fun _ ht => h (Nat.lt_of_lt_of_le ht hle)

theorem Readers.Take.mono (h : r.Take V n r') (hle : m ≤ n) : r.Take V m r' :=
  ⟨h.full.mono hle, h.plain.mono hle, h.sum.mono hle⟩

theorem Fueled.refl (n fuel : Nat) : Fueled .any n fuel fuel :=
  .inl ⟨rfl, trivial⟩

theorem Fueled.mono (h : Fueled V n fuel fuel') (hle : m ≤ n) : Fueled V m fuel fuel' :=
  h.imp id fun h => ⟨Nat.le_trans hle h.1, Nat.le_trans hle h.2⟩

-- Without fuel there is no round.
theorem Fueled.zero (h : Fueled V (n + 1) 0 fuel') :
    fuel' = 0 ∧ V.counts .outOfFuel := by
  rcases h with ⟨rfl, hcounts⟩ | ⟨h, -⟩
  · exact ⟨rfl, hcounts⟩
  · cases h

theorem Fueled.succ (h : Fueled V (n + 1) (fuel + 1) fuel') :
    ∃ k, fuel' = k + 1 ∧ Fueled V n fuel k := by
  rcases h with ⟨rfl, hcounts⟩ | ⟨h, h'⟩
  · exact ⟨fuel, rfl, .inl ⟨rfl, hcounts⟩⟩
  · exact ⟨fuel' - 1, by omega, .inr ⟨by omega, by omega⟩⟩

theorem Agree.outOfFuel (h : V.counts .outOfFuel) :
    Agree V n s (outOfFuel : Parse α) outOfFuel :=
  ⟨rfl, h⟩

-- A loop with fuel for one round more than there are tokens. It proceeds if a round does after
-- which the loop goes on behind at least one token.
theorem Fueled.loop {γ : Type} {f g : Nat → γ → Parse α} (hf : ∀ c, f 0 c = Grammar.outOfFuel)
    (hg : ∀ c, g 0 c = Grammar.outOfFuel)
    (hround : ∀ {t : State} {k k' : Nat}, t.left ≤ n → Fueled V t.left k k' →
      (∀ c, Proceeds V t.left (f k c) (g k' c)) →
        ∀ c, Agree V (t.left + 1) t (f (k + 1) c) (g (k' + 1) c))
    (hfuel : Fueled V (s.left + 1) fuel fuel') (hs : s.left ≤ n) (c : γ) :
    Agree V (s.left + 1) s (f fuel c) (g fuel' c) := by
  induction fuel generalizing fuel' s c with
  | zero =>
    obtain ⟨rfl, hcounts⟩ := hfuel.zero
    rw [hf, hg]
    exact .outOfFuel hcounts
  | succ fuel ih =>
    obtain ⟨k, rfl, hless⟩ := hfuel.succ
    exact hround hs hless (fun c t ht => ih (hless.mono ht) (by omega) c) c

-- What is read where enough tokens have been taken is not held back.
theorem Agree.guarded (h : Agree V n s x x) (hs : s.left < m) : Agree V n s x (below m x) :=
  ⟨(below_of_lt hs x).symm, h.answers⟩

theorem itemsRound_agree {starts : TokenKind → Bool} {again again' : Parse (List α)}
    (hx : Takes V (s.left + 1) x y) (hagain : Proceeds V s.left again again') :
    Agree V (s.left + 1) s (itemsRound starts x again) (itemsRound starts y again') := by
  refine .peek ?_
  split
  · refine (hx (Nat.lt_succ_self _)).bind fun a t ht => ?_
    refine .accept (by decide) (fun _ u hu => ?_) fun _ => .pure (by omega)
    exact (hagain (by omega)).bind fun as v hv => .pure (by omega)
  · exact .pure (Nat.lt_succ_self _)

theorem items_proceeds {starts : TokenKind → Bool} (hx : Takes V (s.left + 1) x y)
    (hfuel : Fueled V (s.left + 1) fuel fuel') :
    Agree V (s.left + 1) s (items starts x fuel) (items starts y fuel') := by
  refine Fueled.loop (f := fun fuel (_ : Unit) => items starts x fuel)
    (g := fun fuel _ => items starts y fuel) (fun _ => rfl) (fun _ => rfl) ?_ hfuel
    (Nat.le_refl _) ()
  intro t k k' ht hless hagain _
  exact itemsRound_agree (hx.mono (Nat.succ_le_succ ht)) (hagain ())

theorem chainRound_agree {level : Level} {again again' : Expr → Parse Expr} {x y : Parse Expr}
    (hlevel : level.isOperator .eof = false) (hx : Takes V s.left x y)
    (hagain : ∀ e, Proceeds V s.left (again e) (again' e)) (e : Expr) :
    Agree V (s.left + 1) s (level.chainRound x again e) (level.chainRound y again' e) := by
  refine .peek ?_
  split
  · next hoperator =>
    have hkind : s.current.kind ≠ .eof := by
      intro h
      rw [h, hlevel] at hoperator
      cases hoperator
    refine .advance hkind fun t ht => (hx ht).bind fun right u hu => ?_
    exact (hagain _ (by omega)).mono (by omega)
  · exact .pure (Nat.lt_succ_self _)

theorem chain_proceeds {level : Level} {x y : Parse Expr}
    (hlevel : level.isOperator .eof = false) (hx : Takes V s.left x y)
    (hfuel : Fueled V (s.left + 1) fuel fuel') (e : Expr) :
    Agree V (s.left + 1) s (level.chain x fuel e) (level.chain y fuel' e) := by
  refine Fueled.loop (f := level.chain x) (g := level.chain y) (fun _ => rfl) (fun _ => rfl) ?_
    hfuel (Nat.le_refl _) e
  intro t k k' ht hless hagain
  exact chainRound_agree hlevel (hx.mono ht) hagain

-- Every level goes to the tighter ones first.
theorem levels_take {levels : List Level} {x y : Parse Expr}
    (hlevels : ∀ level ∈ levels, level.isOperator .eof = false) (hx : Takes V n x y)
    (hfuel : Fueled V n fuel fuel') :
    Takes V n (Level.parse x fuel levels) (Level.parse y fuel' levels) := by
  induction levels with
  | nil => exact hx
  | cons level tighter ih =>
    obtain ⟨hlevel, htighter⟩ := List.forall_mem_cons.mp hlevels
    have htake := ih htighter
    intro t ht
    refine (htake ht).bind fun left u hu => ?_
    refine (chain_proceeds hlevel (htake.mono (by omega)) (hfuel.mono (by omega)) left).mono hu

theorem all_isOperator_eof : ∀ level ∈ Level.all, level.isOperator .eof = false := by
  simp [Level.all, Level.sums, Level.logicOr, Level.logicAnd, Level.equality, Level.comparison,
    Level.sum, Level.term]

theorem sums_isOperator_eof : ∀ level ∈ Level.sums, level.isOperator .eof = false :=
  fun level h => all_isOperator_eof level (List.mem_append_right _ h)

theorem arguments_take (hr : r.Take V (s.left + 1) r') (hfuel : Fueled V (s.left + 1) fuel fuel') :
    Agree V s.left s (arguments r fuel) (arguments r' fuel') := by
  refine (items_proceeds hr.full hfuel).bind fun args t ht => ?_
  exact .expect (by decide) fun _ u hu => .pure (by omega)

-- Something that may be missing, and what is read after it.
theorem optional_agree {β : Type} {kind : TokenKind} {f g : Option α → Parse β}
    (hkind : kind ≠ .eof) (hx : Takes V s.left x y)
    (hf : ∀ o (t : State), t.left ≤ s.left → Agree V n t (f o) (g o)) :
    Agree V n s (do if ← accept kind then (some <$> x) >>= f else pure none >>= f)
      (do if ← accept kind then (some <$> y) >>= g else pure none >>= g) := by
  refine .accept hkind (fun _ t ht => ?_) fun _ => hf none s (Nat.le_refl _)
  exact (Agree.map (hx ht)).bind fun o u hu => hf o u (by omega)

theorem optionalUnless_agree {β : Type} {kind : TokenKind} {f g : Option α → Parse β}
    (hx : Takes V (s.left + 1) x y)
    (hf : ∀ o (t : State), t.left ≤ s.left → Agree V n t (f o) (g o)) :
    Agree V n s (do if ← check kind then pure none >>= f else (some <$> x) >>= f)
      (do if ← check kind then pure none >>= g else (some <$> y) >>= g) := by
  refine .check ?_
  split
  · exact hf none s (Nat.le_refl _)
  · exact (Agree.map (hx (Nat.lt_succ_self _))).bind fun o t ht => hf o t (Nat.le_of_lt ht)

theorem declaration_take {x y : Parse Expr} (hx : Takes V s.left x y) :
    Agree V s.left s (declaration x) (declaration y) := by
  have hrest : ∀ t : State, t.left ≤ s.left → Agree V s.left t
      (do
        let name ← expect .id "a name"
        let _ ← expect .colon "`:`"
        let ty ← expectType
        let init ← if ← accept .equal then some <$> x else pure none
        return (⟨name, ty, init⟩ : Declaration))
      (do
        let name ← expect .id "a name"
        let _ ← expect .colon "`:`"
        let ty ← expectType
        let init ← if ← accept .equal then some <$> y else pure none
        return (⟨name, ty, init⟩ : Declaration)) := by
    intro t ht
    refine .expect (by decide) fun name u hu => ?_
    refine .expect (by decide) fun _ v hv => ?_
    refine .expectType fun ty w hw => ?_
    exact optional_agree (by decide) (hx.mono (by omega)) fun init z hz => .pure (by omega)
  refine .accept (by decide) (fun _ t ht => hrest t (Nat.le_of_lt ht)) fun _ => ?_
  exact hrest s (Nat.le_refl _)

theorem registered_take {x y : Parse Expr} (hx : Takes V s.left x y) :
    Agree V s.left s (registered x) (registered y) := by
  refine (declaration_take hx).bind fun decl t ht => ?_
  exact .declare fun u hu => .pure (by omega)

theorem bracketed_take (hr : r.Take V s.left r') (hkind : s.current.kind ≠ .eof) (e : Expr) :
    Agree V s.left s (bracketed r e) (bracketed r' e) := by
  refine .advance hkind fun t ht => ?_
  refine optionalUnless_agree (hr.sum.mono ht) fun start u hu => ?_
  refine .accept (by decide) (fun _ v hv => ?_) fun _ => ?_
  · refine optionalUnless_agree (hr.sum.mono (by omega)) fun stop w hw => ?_
    exact .expect (by decide) fun _ z hz => .pure (by omega)
  · refine .expect (by decide) fun _ v hv => ?_
    cases start with
    | some index => exact .pure (by omega)
    | none => exact .unexpected _

theorem suffixesRound_agree {again again' : Expr → Parse Expr} (hr : r.Take V s.left r')
    (hfuel : Fueled V s.left fuel fuel') (hagain : ∀ e, Proceeds V s.left (again e) (again' e))
    (e : Expr) :
    Agree V (s.left + 1) s (suffixesRound r fuel again e) (suffixesRound r' fuel' again' e) := by
  have harguments : ∀ t : State, t.left < s.left →
      Agree V t.left t (arguments r fuel) (arguments r' fuel') := fun t ht =>
    arguments_take (hr.mono ht) (hfuel.mono ht)
  refine .peek ?_
  split
  · next hkind =>
    refine (bracketed_take hr (by rw [hkind]; decide) e).bind fun e t ht => ?_
    exact (hagain e ht).mono (by omega)
  · next hkind =>
    refine .advance (by rw [hkind]; decide) fun t ht => ?_
    refine .expect (by decide) fun operation u hu => ?_
    refine .expect (by decide) fun _ v hv => ?_
    refine (harguments v (by omega)).bind fun args w hw => ?_
    exact (hagain _ (by omega)).mono (by omega)
  · next hkind =>
    split
    · refine .advance (by rw [hkind]; decide) fun t ht => ?_
      refine (harguments t ht).bind fun args u hu => ?_
      exact (hagain _ (by omega)).mono (by omega)
    · exact .fail _
  · exact .pure (Nat.lt_succ_self _)

theorem suffixes_proceeds (hr : r.Take V s.left r') (hfuel : Fueled V (s.left + 1) fuel fuel')
    (e : Expr) : Agree V (s.left + 1) s (suffixes r fuel e) (suffixes r' fuel' e) := by
  refine Fueled.loop (f := suffixes r) (g := suffixes r') (fun _ => rfl) (fun _ => rfl) ?_
    hfuel (Nat.le_refl _) e
  intro t k k' ht hless hagain
  exact suffixesRound_agree (hr.mono ht) hless hagain

theorem entry_take (hr : r.Take V s.left r') : Agree V s.left s (entry r) (entry r') := by
  refine .expect (by decide) fun key t ht => ?_
  refine .expect (by decide) fun _ u hu => ?_
  exact (hr.full (by omega)).bind fun value v hv => .pure (by omega)

theorem comprehension_take (hr : r.Take V s.left r') (hkind : s.current.kind ≠ .eof)
    (bracket : Token) :
    Agree V s.left s (comprehension r bracket) (comprehension r' bracket) := by
  refine .advance hkind fun t ht => ?_
  refine .expect (by decide) fun _ u hu => ?_
  refine (Agree.inBlock (n := u.left) fun v hv => ?_).bind fun e v hv =>
    .expect (by decide) fun _ w hw => .pure (by omega)
  refine (registered_take (hr.plain.mono (by omega))).bind fun iterator w hw => ?_
  refine .expect (by decide) fun _ w hw => ?_
  refine (hr.full (by omega)).bind fun iterable w hw => ?_
  refine .expect (by decide) fun _ w hw => ?_
  refine .expect (by decide) fun _ w hw => ?_
  exact (hr.full (by omega)).bind fun projection w hw => .pure (by omega)

-- All that is read again inside of a primary stands behind a token of it.
theorem primary_take (hr : r.Take V s.left r') (hfuel : Fueled V s.left fuel fuel') :
    Agree V s.left s (primary r fuel) (primary r' fuel') := by
  have hconstant : s.current.kind ≠ .eof →
      Agree V s.left s (Expr.constant <$> advance) (Expr.constant <$> advance) := by
    intro hkind
    show Agree V s.left s (advance >>= fun token => pure (Expr.constant token))
      (advance >>= fun token => pure (Expr.constant token))
    exact .advance hkind fun t ht => .pure ht
  refine .peek ?_
  split
  · next hkind =>
    refine .advance (by rw [hkind]; decide) fun t ht => .resolve fun ty => ?_
    exact (suffixes_proceeds (hr.mono (Nat.le_of_lt ht)) (hfuel.mono ht) _).mono ht
  · next hkind => exact hconstant (by rw [hkind]; decide)
  · next hkind => exact hconstant (by rw [hkind]; decide)
  · next hkind => exact hconstant (by rw [hkind]; decide)
  · next hkind => exact hconstant (by rw [hkind]; decide)
  · next hkind =>
    refine .advance (by rw [hkind]; decide) fun t ht => ?_
    refine (hr.full ht).bind fun e u hu => ?_
    exact .expect (by decide) fun _ v hv => .pure (by omega)
  · next hkind =>
    refine .advance (by rw [hkind]; decide) fun t ht => .check ?_
    split
    · next hfor =>
      have hfor : t.current.kind = .kwFor := of_decide_eq_true hfor
      exact (comprehension_take (hr.mono (Nat.le_of_lt ht)) (by rw [hfor]; decide) _).mono
        (Nat.le_of_lt ht)
    · refine (items_proceeds (hr.full.mono ht) (hfuel.mono ht)).bind fun values u hu => ?_
      exact .expect (by decide) fun _ v hv => .pure (by omega)
  · next hkind =>
    refine .advance (by rw [hkind]; decide) fun t ht => ?_
    have hentry : Takes V (t.left + 1) (entry r) (entry r') := fun u hu =>
      entry_take (hr.mono (by omega))
    refine (items_proceeds hentry (hfuel.mono ht)).bind fun entries u hu => ?_
    exact .expect (by decide) fun _ v hv => .pure (by omega)
  · exact .unexpected _

theorem unaryRound_agree {again again' : Parse Expr} (hr : r.Take V s.left r')
    (hfuel : Fueled V s.left fuel fuel') (hagain : Takes V s.left again again') :
    Agree V s.left s (unaryRound r fuel again) (unaryRound r' fuel' again') := by
  refine .peek ?_
  split
  · next hkind =>
    have hne : s.current.kind ≠ .eof := by
      rcases hkind with h | h <;> rw [h] <;> decide
    refine .advance hne fun t ht => ?_
    exact (hagain ht).bind fun operand u hu => .pure (by omega)
  · exact primary_take hr hfuel

theorem assignmentRound_agree {target target' again again' : Parse Expr}
    (htarget : Takes V (s.left + 1) target target') (hagain : Takes V s.left again again') :
    Agree V s.left s (assignmentRound target again) (assignmentRound target' again') := by
  refine (htarget (Nat.lt_succ_self _)).bind fun e t ht => .check ?_
  split
  · next hequal =>
    have hkind : t.current.kind = .equal := of_decide_eq_true hequal
    refine .advance (by rw [hkind]; decide) fun u hu => ?_
    split
    · exact (hagain (by omega)).bind fun value v hv => .pure (by omega)
    · exact .fail _
  · exact .pure ht

theorem readers_take
    (hassignment : Takes V n (assignment fuel depth) (assignment fuel' depth))
    (hunary : Takes V n (unary fuel depth) (unary fuel' depth)) (hfuel : Fueled V n fuel fuel') :
    (readers fuel depth).Take V n (readers fuel' depth) where
  full := hassignment
  plain := levels_take all_isOperator_eof hunary hfuel
  sum := levels_take sums_isOperator_eof hunary hfuel

-- Both readers go down to each other with less fuel, and two turns take a token.
theorem exprs_take (fuel fuel' depth : Nat) :
    (∀ s : State, Fueled V (2 * s.left + 2) fuel fuel' →
      Agree V s.left s (assignment fuel depth) (assignment fuel' depth)) ∧
    (∀ s : State, Fueled V (2 * s.left + 1) fuel fuel' →
      Agree V s.left s (unary fuel depth) (unary fuel' depth)) := by
  induction fuel generalizing fuel' depth with
  | zero =>
    constructor
    · intro s hfuel
      obtain ⟨rfl, hcounts⟩ := hfuel.zero
      exact .outOfFuel hcounts
    · intro s hfuel
      obtain ⟨rfl, hcounts⟩ := hfuel.zero
      exact .outOfFuel hcounts
  | succ fuel ih =>
    constructor
    · intro s hfuel
      obtain ⟨k, rfl, hless⟩ := hfuel.succ
      have hunary : Takes V (s.left + 1) (unary fuel depth) (unary k depth) := fun t ht =>
        (ih k depth).2 t (hless.mono (by omega))
      have htarget := levels_take all_isOperator_eof hunary (hless.mono (by omega))
      exact assignmentRound_agree htarget fun t ht =>
        .nested ((ih k (depth + 1)).1 t (hless.mono (by omega)))
    · intro s hfuel
      obtain ⟨k, rfl, hless⟩ := hfuel.succ
      have hassignment : Takes V s.left (assignment fuel (depth + 1)) (assignment k (depth + 1)) :=
        fun t ht => (ih k (depth + 1)).1 t (hless.mono (by omega))
      have hunary : Takes V s.left (unary fuel (depth + 1)) (unary k (depth + 1)) :=
        fun t ht => (ih k (depth + 1)).2 t (hless.mono (by omega))
      have hinner : Fueled V s.left fuel k := hless.mono (by omega)
      exact .nested (unaryRound_agree (readers_take hassignment hunary hinner) hinner hunary)

end

end Parlance.Grammar
