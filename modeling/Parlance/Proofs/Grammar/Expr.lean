import Parlance.Proofs.Grammar.Reading

namespace Parlance.Grammar.Reading

-- A reader of expressions of a rank at a depth.
def ReadsExpr (J : Reading) (d : Nat) (r : Rank) (x : Parse Expr) : Prop :=
  ∀ ⦃σ s⦄, s.At σ → Gives σ s x (J.expr σ d r)

-- Readers of expressions at a depth.
structure ReadsExprs (J : Reading) (d : Nat) (r : Readers) : Prop where
  full : J.ReadsExpr d .assignment r.full
  plain : J.ReadsExpr d .logicOr r.plain
  sum : J.ReadsExpr d .sum r.sum

section

variable {J : Reading} {σ : Scope} {s : State} {d : Nat} {r : Readers} {β : Type}
  {S : List Token → β → State → Prop}

-- The operators of a level, after the tokens `ts` of a first operand.
theorem chain (C : J.Closed) {level : Level} {rank : Rank} (hlevel : level.Is rank)
    {operand : Parse Expr} (hoperand : J.ReadsExpr d rank.next operand) (fuel : Nat)
    {ts : List Token} {left : Expr} (hs : s.At σ) (hleft : J.expr σ d rank ts left) :
    Gives σ s (level.chain operand fuel left) fun us e => J.expr σ d rank (ts ++ us) e := by
  induction fuel generalizing s ts left with
  | zero => exact .outOfFuel
  | succ fuel ih =>
    refine .peek ?_
    split
    · next hkind =>
      have hmem := (hlevel.operator _).mp hkind
      have hne : s.current.kind ≠ .eof := fun h => rank.eof_not_mem_operators (h ▸ hmem)
      refine .advance hs hne fun t ht => .bind (hoperand ht) fun us right u hright => ?_
      have hnode := C.binary hleft hmem hright.2
      rw [← hlevel.node] at hnode
      refine (ih hright.1 hnode).imp fun vs e v he => ⟨he.1, ?_⟩
      simpa only [List.append_assoc, List.cons_append] using he.2
    · refine .pure ⟨hs, ?_⟩
      simpa only [List.append_nil] using hleft

theorem level (C : J.Closed) {level : Level} {rank : Rank} (hlevel : level.Is rank)
    {operand : Parse Expr} (hoperand : J.ReadsExpr d rank.next operand) (fuel : Nat) :
    J.ReadsExpr d rank (do let left ← operand; level.chain operand fuel left) := by
  intro σ s hs
  refine .bind (hoperand hs) fun ts left t hleft => ?_
  exact chain C hlevel hoperand fuel hleft.1 (C.tighter hleft.2)

theorem sums (C : J.Closed) {tightest : Parse Expr} (htightest : J.ReadsExpr d .unary tightest)
    (fuel : Nat) : J.ReadsExpr d .sum (Level.parse tightest fuel Level.sums) :=
  level C Level.sum_is (level C Level.term_is htightest fuel) fuel

theorem levels (C : J.Closed) {tightest : Parse Expr}
    (htightest : J.ReadsExpr d .unary tightest) (fuel : Nat) :
    J.ReadsExpr d .logicOr (Level.parse tightest fuel Level.all) := by
  have hcomparison := level C Level.comparison_is (sums C htightest fuel) fuel
  have hequality := level C Level.equality_is hcomparison fuel
  have hlogicAnd := level C Level.logicAnd_is hequality fuel
  exact level C Level.logicOr_is hlogicAnd fuel

-- Something that is there if a token is, and what is read after both.
theorem optional {α : Type} {P : List Token → α → Prop} {x : Parse α} {kind : TokenKind}
    {f : Option α → Parse β} (hs : s.At σ) (hkind : kind ≠ .eof)
    (hx : ∀ t, t.At σ → Gives σ t x P)
    (hf : ∀ ts o t, t.At σ → Maybe (Led kind P) ts o →
      Reads t (f o) fun us b u => S (ts ++ us) b u) :
    Reads s (do if ← accept kind then (some <$> x) >>= f else pure none >>= f) S := by
  refine .accept hs hkind (fun hcurrent t ht => ?_) fun _ => ?_
  · have hsome : Reads t (some <$> x) fun ts o u => u.At σ ∧ ∃ a, o = some a ∧ P ts a :=
      .map ((hx t ht).imp fun ts a u ha => ⟨ha.1, a, rfl, ha.2⟩)
    refine .bind hsome ?_
    rintro ts _ u ⟨hu, a, rfl, ha⟩
    exact hf _ _ u hu (.some (.intro hcurrent ha))
  · exact hf [] none s hs .none

-- Something that is there unless a token is.
theorem optionalUnless {α : Type} {P : List Token → α → Prop} {x : Parse α} {kind : TokenKind}
    {f : Option α → Parse β} (hs : s.At σ) (hx : ∀ t, t.At σ → Gives σ t x P)
    (hf : ∀ ts o t, t.At σ → Maybe P ts o → (o = none → t.current.kind = kind) →
      Reads t (f o) fun us b u => S (ts ++ us) b u) :
    Reads s (do if ← check kind then pure none >>= f else (some <$> x) >>= f) S := by
  refine .check ?_
  split
  · next h => exact hf [] none s hs .none fun _ => of_decide_eq_true h
  · have hsome : Reads s (some <$> x) fun ts o u => u.At σ ∧ ∃ a, o = some a ∧ P ts a :=
      .map ((hx s hs).imp fun ts a u ha => ⟨ha.1, a, rfl, ha.2⟩)
    refine .bind hsome ?_
    rintro ts _ u ⟨hu, a, rfl, ha⟩
    exact hf ts _ u hu (.some ha) (by simp)

-- A declaration, with `var` in front of it or not.
def Declares (J : Reading) (σ : Scope) (d : Nat) (ts : List Token) (decl : Declaration) : Prop :=
  ∃ var us, ts = Option.toList var ++ us ∧ (∀ t ∈ var, t.kind = .kwVar) ∧
    Annotated (J.expr σ d .logicOr) us decl.name decl.ty decl.init

theorem declaration {plain : Parse Expr} (hplain : J.ReadsExpr d .logicOr plain) (hs : s.At σ) :
    Gives σ s (declaration plain) (J.Declares σ d) := by
  have hrest : ∀ t, t.At σ → Gives σ t
      (do
        let name ← expect .id "a name"
        let _ ← expect .colon "`:`"
        let ty ← expectType
        let init ← if ← accept .equal then some <$> plain else pure none
        return (⟨name, ty, init⟩ : Declaration))
      fun ts decl => Annotated (J.expr σ d .logicOr) ts decl.name decl.ty decl.init := by
    intro t ht
    refine .expect ht (by decide) fun name t hname ht => ?_
    refine .expect ht (by decide) fun colon t hcolon ht => ?_
    refine .expectType ht fun type ty t htype hty ht => ?_
    refine optional ht (by decide) (fun t ht => hplain ht) fun ts init t ht hinit => .pure ⟨ht, ?_⟩
    simp only [List.append_nil]
    exact .intro hname hcolon htype hty hinit
  refine .accept hs (by decide) (fun hvar t ht => ?_) fun _ => ?_
  · refine (hrest t ht).imp fun ts decl u h => ⟨h.1, some s.current, ts, rfl, ?_, h.2⟩
    rintro _ ⟨⟩
    exact hvar
  · exact (hrest s hs).imp fun ts decl u h => ⟨h.1, none, ts, rfl, by simp, h.2⟩

theorem registered {plain : Parse Expr} (hplain : J.ReadsExpr d .logicOr plain) (hs : s.At σ) :
    Reads s (registered plain) fun ts decl t =>
      J.Declares σ d ts decl ∧ ∃ τ, σ.insert? decl.name.lexeme decl.ty = some τ ∧ t.At τ := by
  refine .bind (declaration hplain hs) fun ts decl t hdecl => ?_
  refine .declare hdecl.1 fun τ u hτ hu => .pure ?_
  rw [List.append_nil]
  exact ⟨hdecl.2, τ, hτ, hu⟩

-- The arguments of a call, with the parenthesis `left` in front of them.
theorem arguments (hr : J.ReadsExprs d r) (fuel : Nat) (hs : s.At σ) {left : Token}
    (hleft : left.kind = .leftParen) :
    Gives σ s (arguments r fuel) fun ts args => J.Arguments σ d (left :: ts) args := by
  refine .bind (.items fuel hs fun t ht => hr.full ht) fun ts args t hargs => ?_
  refine .expect hargs.1 (by decide) fun right u hright hu => .pure ⟨hu, ?_⟩
  exact .intro hleft hargs.2 hright

theorem bracketed (C : J.Closed) (hd : d < maxNesting) (hr : J.ReadsExprs (d + 1) r)
    {ts : List Token} {target : Expr} (hs : s.At σ) (hkind : s.current.kind = .leftBracket)
    (htarget : J.suffixed σ d ts target) :
    Gives σ s (bracketed r target) fun us e => J.suffixed σ d (ts ++ us) e ∧ ∀ t ty, e ≠ .name t ty
      := by
  refine .advance hs (by rw [hkind]; decide) fun t ht => ?_
  refine optionalUnless ht (fun t ht => hr.sum ht) fun us start t ht hstart hcolon => ?_
  refine .accept ht (by decide) (fun hcolon t ht => ?_) fun hnot => ?_
  · refine optionalUnless ht (fun t ht => hr.sum ht) fun vs stop t ht hstop _ => ?_
    refine .expect ht (by decide) fun right t hright ht => .pure ⟨ht, ?_, fun _ _ h => by cases h⟩
    exact C.slice hd htarget hkind hstart hcolon hstop hright
  · refine .expect ht (by decide) fun right t hright ht => ?_
    cases hstart with
    | some h =>
      refine .pure ⟨ht, ?_, fun _ _ h => by cases h⟩
      exact C.access hd htarget (.intro hkind h hright)
    | none => exact absurd (hcolon rfl) hnot

-- A name that has been looked up.
def Resolved (σ : Scope) (t : Token) (ty : Ty) : Prop :=
  t.kind = .id ∧ σ.find? t.lexeme = some ty

-- The only name that suffixes are read after is the first of what they are read after.
theorem suffixes (C : J.Closed) (hd : d < maxNesting) (hr : J.ReadsExprs (d + 1) r) (fuel : Nat)
    {ts : List Token} {e : Expr} (hs : s.At σ) (he : J.suffixed σ d ts e)
    (hname : ∀ t ty, e = .name t ty → ts = [t] ∧ Resolved σ t ty) :
    Gives σ s (suffixes r fuel e) fun us e => J.suffixed σ d (ts ++ us) e := by
  induction fuel generalizing s ts e with
  | zero => exact .outOfFuel
  | succ fuel ih =>
    -- What is read next has the tokens of what has been read so far in front of it.
    have hnext : ∀ (us : List Token) {e : Expr} {t : State}, t.At σ →
        J.suffixed σ d (ts ++ us) e → (∀ t ty, e ≠ .name t ty) →
        Gives σ t (Grammar.suffixes r fuel e) fun vs e => J.suffixed σ d (ts ++ (us ++ vs)) e := by
      intro us e t ht he hne
      refine (ih ht he fun t ty h => absurd h (hne t ty)).imp fun vs e u hu => ⟨hu.1, ?_⟩
      simpa only [List.append_assoc] using hu.2
    refine .peek ?_
    split
    · next hkind =>
      refine .bind (bracketed C hd hr hs hkind he) fun us e t h => ?_
      exact hnext us h.1 h.2.1 h.2.2
    · next hkind =>
      refine .advance hs (by rw [hkind]; decide) fun t ht => ?_
      refine .expect ht (by decide) fun operation t hoperation ht => ?_
      refine .expect ht (by decide) fun left t hleft ht => ?_
      refine .bind (arguments hr fuel ht hleft) fun us args t hargs => ?_
      have hmethod := C.method hd he hkind hoperation hargs.2
      exact hnext (s.current :: operation :: left :: us) hargs.1 hmethod fun _ _ h => by cases h
    · next hkind =>
      split
      · next callee ty =>
        obtain ⟨rfl, hid, hfind⟩ := hname callee ty rfl
        refine .advance hs (by rw [hkind]; decide) fun t ht => ?_
        refine .bind (arguments hr fuel ht hkind) fun us args t hargs => ?_
        have hcall := C.call hd hid hfind hargs.2
        exact hnext (s.current :: us) hargs.1 hcall fun _ _ h => by cases h
      · exact .fail _
    · refine .pure ⟨hs, ?_⟩
      simpa only [List.append_nil] using he

theorem entry (hr : J.ReadsExprs d r) (hs : s.At σ) :
    Gives σ s (entry r) (Keyed (J.expr σ d .assignment)) := by
  refine .expect hs (by decide) fun key t hkey ht => ?_
  refine .expect ht (by decide) fun colon t hcolon ht => ?_
  exact .last (hr.full ht) fun ts value t hvalue => ⟨hvalue.1, .intro hkey hcolon hvalue.2⟩

theorem comprehension (C : J.Closed) (hd : d < maxNesting) (hr : J.ReadsExprs (d + 1) r)
    {bracket : Token} (hbracket : bracket.kind = .leftBracket) (hs : s.At σ)
    (hfor : s.current.kind = .kwFor) :
    Gives σ s (comprehension r bracket) fun ts e => J.expr σ d .primary (bracket :: ts) e := by
  refine .advance hs (by rw [hfor]; decide) fun t ht => ?_
  refine .expect ht (by decide) fun left t hleft ht => ?_
  -- All that stands between the brackets, but for the keyword and the parenthesis.
  refine .bind (.inBlock (P := fun ts e => ∀ close : Token, close.kind = .rightBracket →
    J.expr σ d .primary (bracket :: s.current :: left :: (ts ++ [close])) e) ht fun t ht => ?_) ?_
  · refine .bind (registered hr.plain ht) ?_
    rintro _ iterator t ⟨⟨var, ts, rfl, hvar, hiterator⟩, τ, hτ, ht⟩
    refine .expect ht (by decide) fun in' t hin ht => ?_
    refine .bind (hr.full ht) fun us iterable t hiterable => ?_
    refine .expect hiterable.1 (by decide) fun right t hright ht => ?_
    refine .expect ht (by decide) fun arrow t harrow ht => ?_
    refine .last (hr.full ht) fun vs projection t hprojection => ⟨⟨τ, hprojection.1, ?_⟩, ?_⟩
    · exact Scope.outer_of_insert? hτ
    · intro close hclose
      have h := C.comprehension hd hbracket hfor hleft hvar hiterator hτ hin hiterable.2 hright
        harrow hprojection.2 hclose
      simpa only [List.append_assoc, List.cons_append] using h
  · intro ts e t he
    refine .expect he.1 (by decide) fun close t hclose ht => .pure ⟨ht, ?_⟩
    exact he.2 close hclose

theorem primary (C : J.Closed) (hd : d < maxNesting) (hr : J.ReadsExprs (d + 1) r) (fuel : Nat)
    (hs : s.At σ) : Gives σ s (primary r fuel) (J.expr σ d .primary) := by
  have hconstant : isConstant s.current.kind = true →
      Gives σ s (Expr.constant <$> Grammar.advance) (J.expr σ d .primary) := by
    intro hkind
    have hne : s.current.kind ≠ .eof := by
      intro h
      rw [h] at hkind
      cases hkind
    show Reads s (Grammar.advance >>= fun token => pure (Expr.constant token)) _
    exact .advance hs hne fun t ht => .pure ⟨ht, C.constant hd hkind⟩
  refine .peek ?_
  split
  · next hkind =>
    refine .advance hs (by rw [hkind]; decide) fun t ht => .resolve ht fun ty hty => ?_
    refine (suffixes C hd hr fuel ht (C.name hd hkind hty) ?_).imp fun ts e u he =>
      ⟨he.1, C.primary he.2⟩
    rintro _ _ ⟨⟩
    exact ⟨rfl, hkind, hty⟩
  · next hkind => exact hconstant (by rw [hkind]; rfl)
  · next hkind => exact hconstant (by rw [hkind]; rfl)
  · next hkind => exact hconstant (by rw [hkind]; rfl)
  · next hkind => exact hconstant (by rw [hkind]; rfl)
  · next hkind =>
    refine .advance hs (by rw [hkind]; decide) fun t ht => ?_
    refine .bind (hr.full ht) fun ts e t he => ?_
    refine .expect he.1 (by decide) fun right t hright ht => .pure ⟨ht, ?_⟩
    exact C.grouped hd (.intro hkind he.2 hright)
  · next hkind =>
    refine .advance hs (by rw [hkind]; decide) fun t ht => .check ?_
    split
    · next hfor => exact comprehension C hd hr hkind ht (of_decide_eq_true hfor)
    · refine .bind (.items fuel ht fun t ht => hr.full ht) fun ts items t hitems => ?_
      refine .expect hitems.1 (by decide) fun close t hclose ht => .pure ⟨ht, ?_⟩
      exact C.array hd hkind hitems.2 hclose
  · next hkind =>
    refine .advance hs (by rw [hkind]; decide) fun t ht => ?_
    refine .bind (.items fuel ht fun t ht => entry hr ht) fun ts entries t hentries => ?_
    refine .expect hentries.1 (by decide) fun close t hclose ht => .pure ⟨ht, ?_⟩
    exact C.dict hd hkind hentries.2 hclose
  · exact .unexpected _

theorem readsExprs_of (C : J.Closed) {fuel : Nat}
    (hassignment : J.ReadsExpr d .assignment (assignment fuel d))
    (hunary : J.ReadsExpr d .unary (unary fuel d)) : J.ReadsExprs d (readers fuel d) where
  full := hassignment
  plain := levels C hunary fuel
  sum := sums C hunary fuel

-- Both readers go down to each other with less fuel.
theorem readsExpr (C : J.Closed) (fuel d : Nat) :
    J.ReadsExpr d .assignment (assignment fuel d) ∧ J.ReadsExpr d .unary (unary fuel d) := by
  induction fuel generalizing d with
  | zero => exact ⟨fun _ _ _ => .outOfFuel, fun _ _ _ => .outOfFuel⟩
  | succ fuel ih =>
    refine ⟨fun σ s hs => ?_, fun σ s hs => ?_⟩
    · refine .bind (levels C (ih d).2 fuel hs) fun ts target t htarget => .check ?_
      split
      · next hequal =>
        have hkind := of_decide_eq_true hequal
        refine .advance htarget.1 (by rw [hkind]; decide) fun u hu => ?_
        split
        · next hassignable =>
          have hvalue : Gives σ u (nested d (assignment fuel)) fun us value =>
              d < maxNesting ∧ J.expr σ (d + 1) .assignment us value :=
            .nested fun hd => ((ih (d + 1)).1 hu).imp fun us v x hv => ⟨hv.1, hd, hv.2⟩
          refine .last hvalue fun us value v hv => ⟨hv.1, ?_⟩
          exact C.assign hv.2.1 htarget.2 hassignable hkind hv.2.2
        · exact .fail _
      · refine .pure ⟨htarget.1, ?_⟩
        simp only [List.append_nil]
        exact C.tighter htarget.2
    · refine .nested fun hd => .peek ?_
      split
      · next hkind =>
        have hne : s.current.kind ≠ .eof := by
          rcases hkind with h | h <;> rw [h] <;> decide
        refine .advance hs hne fun t ht => ?_
        exact .last ((ih (d + 1)).2 ht) fun ts operand u hoperand =>
          ⟨hoperand.1, C.unary hd hkind hoperand.2⟩
      · have hr := readsExprs_of C (ih (d + 1)).1 (ih (d + 1)).2
        exact (primary C hd hr fuel hs).imp fun ts e t he => ⟨he.1, C.tighter he.2⟩

theorem readsExprs (C : J.Closed) (fuel d : Nat) : J.ReadsExprs d (readers fuel d) :=
  readsExprs_of C (readsExpr C fuel d).1 (readsExpr C fuel d).2

end

end Parlance.Grammar.Reading
