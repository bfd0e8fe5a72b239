import Parlance.Proofs.Grammar.Reading
import Parlance.Proofs.Printing

namespace Parlance

namespace Token

theorem kind_of_unlined {t u : Token} (h : t.unlined = u.unlined) : t.kind = u.kind :=
  (Token.mk.inj h).1

theorem lexeme_of_unlined {t u : Token} (h : t.unlined = u.unlined) : t.lexeme = u.lexeme :=
  (Token.mk.inj h).2.1

end Token

namespace Grammar

-- The tokens `us` and the end of the text are to be read, whatever their lines are.
structure State.Faces (σ : Scope) (us : List Token) (s : State) : Prop where
  scope : s.scope = σ
  tokens : s.tokens.map Token.unlined = us.map Token.unlined ++ [⟨.eof, "EOF", 0⟩]

-- The class of the next token, if `us` and the end of the text are to be read.
def nextKind : List Token → TokenKind
  | [] => .eof
  | t :: _ => t.kind

namespace State.Faces

variable {σ : Scope} {t : Token} {us : List Token} {s : State}

theorem kind (h : s.Faces σ us) : s.current.kind = nextKind us := by
  have htokens := h.tokens
  cases us with
  | nil => exact (Token.mk.inj (List.cons.inj htokens).1).1
  | cons t us => exact Token.kind_of_unlined (List.cons.inj htokens).1

-- There is always a token after one that is not the end.
theorem advance (h : s.Faces σ (t :: us)) :
    ∃ s', Grammar.advance s = .ok (s.current, s') ∧ s.current.unlined = t.unlined ∧
      s'.Faces σ us := by
  obtain ⟨hcurrent, hrest⟩ := List.cons.inj h.tokens
  cases hs : s.rest with
  | nil => simp [hs] at hrest
  | cons u rest =>
    refine ⟨{ s with current := u, rest := rest }, ?_, hcurrent, h.scope, ?_⟩
    · rw [Grammar.advance, hs]
    · rw [hs] at hrest
      exact hrest

end State.Faces

-- What a reader gives in a state.
def Yields {α : Type} (s : State) (x : Parse α) (G : Except Stop (α × State) → Prop) : Prop :=
  G (x s)

-- A reader that succeeds.
def Ends {α : Type} (Q : α → State → Prop) : Except Stop (α × State) → Prop
  | .ok (a, t) => Q a t
  | .error _ => False

-- A reader that succeeds and leaves the tokens `us`.
abbrev Leaves {α : Type} (σ : Scope) (us : List Token) (P : α → Prop) :
    Except Stop (α × State) → Prop :=
  Ends fun a t => P a ∧ t.Faces σ us

theorem Ends.exists_ok {α : Type} {Q : α → State → Prop} {result : Except Stop (α × State)}
    (h : Ends Q result) : ∃ a t, result = .ok (a, t) ∧ Q a t := by
  cases result with
  | error stop => cases h
  | ok p => exact ⟨p.1, p.2, rfl, h⟩

namespace Yields

variable {α β : Type} {σ : Scope} {s : State} {x : Parse α} {t : Token} {us : List Token}
  {Q R : α → State → Prop} {G : Except Stop (β × State) → Prop}

theorem pure {a : α} (h : Q a s) : Yields s (pure a) (Ends Q) :=
  h

theorem imp (h : Yields s x (Ends Q)) (himp : ∀ a t, Q a t → R a t) : Yields s x (Ends R) := by
  obtain ⟨a, t, hx, hq⟩ := h.exists_ok
  rw [Yields, hx]
  exact himp a t hq

theorem bind {f : α → Parse β} (h : Yields s x (Ends Q)) (hf : ∀ a t, Q a t → Yields t (f a) G) :
    Yields s (x >>= f) G := by
  obtain ⟨a, t, hx, hq⟩ := h.exists_ok
  have hbind : (x >>= f) s = f a t := by
    show (x s >>= fun p => f p.1 p.2) = f a t
    rw [hx]
    rfl
  rw [Yields, hbind]
  exact hf a t hq

theorem map {f : α → β} {S : β → State → Prop} (h : Yields s x (Ends fun a t => S (f a) t)) :
    Yields s (f <$> x) (Ends S) :=
  bind (f := fun a => Pure.pure (f a)) h fun _ _ hs => hs

theorem peek {f : Token → Parse β} (h : Yields s (f s.current) G) :
    Yields s (Grammar.peek >>= f) G :=
  h

theorem check {kind : TokenKind} {f : Bool → Parse β}
    (h : Yields s (f (decide (s.current.kind = kind))) G) :
    Yields s (Grammar.check kind >>= f) G :=
  h

theorem advance {f : Token → Parse β} (hs : s.Faces σ (t :: us))
    (hf : ∀ t' s', t'.unlined = t.unlined → s'.Faces σ us → Yields s' (f t') G) :
    Yields s (Grammar.advance >>= f) G := by
  obtain ⟨s', hadvance, hcurrent, hs'⟩ := hs.advance
  refine bind (Q := fun a u => a = s.current ∧ u = s') ?_ ?_
  · unfold Yields
    rw [hadvance]
    exact ⟨rfl, rfl⟩
  · rintro _ _ ⟨rfl, rfl⟩
    exact hf _ _ hcurrent hs'

theorem expect {kind : TokenKind} {wanted : String} {f : Token → Parse β} (hs : s.Faces σ (t :: us))
    (hkind : t.kind = kind)
    (hf : ∀ t' s', t'.unlined = t.unlined → s'.Faces σ us → Yields s' (f t') G) :
    Yields s (Grammar.expect kind wanted >>= f) G := by
  have hcurrent : s.current.kind = kind := hs.kind.trans hkind
  unfold Grammar.expect
  rw [bind_assoc]
  refine .check ?_
  simp only [hcurrent, decide_true, ite_true]
  exact .advance hs hf

theorem accept {kind : TokenKind} {f : Bool → Parse β} (hs : s.Faces σ (t :: us))
    (hkind : t.kind = kind) (hf : ∀ s', s'.Faces σ us → Yields s' (f true) G) :
    Yields s (Grammar.accept kind >>= f) G := by
  have hcurrent : s.current.kind = kind := hs.kind.trans hkind
  unfold Grammar.accept
  rw [bind_assoc]
  refine .check ?_
  simp only [hcurrent, decide_true, ite_true, bind_assoc, pure_bind]
  exact .advance hs fun _ s' _ hs' => hf s' hs'

theorem reject {kind : TokenKind} {f : Bool → Parse β} (hs : s.Faces σ us)
    (hkind : nextKind us ≠ kind) (hf : Yields s (f false) G) :
    Yields s (Grammar.accept kind >>= f) G := by
  have hcurrent : s.current.kind ≠ kind := hs.kind ▸ hkind
  unfold Grammar.accept
  rw [bind_assoc]
  refine .check ?_
  simp only [hcurrent, decide_false, Bool.false_eq_true, ite_false, pure_bind]
  exact hf

-- A token that may be missing and that means nothing.
theorem skip {kind : TokenKind} {word : List Token} {f : Bool → Parse β}
    (hword : word = [] ∨ word = [Token.mark kind]) (hs : s.Faces σ (word ++ us))
    (hus : nextKind us ≠ kind) (hf : ∀ b s', s'.Faces σ us → Yields s' (f b) G) :
    Yields s (Grammar.accept kind >>= f) G := by
  rcases hword with rfl | rfl
  · exact .reject hs hus (hf _ _ hs)
  · exact .accept hs rfl fun s' hs' => hf _ _ hs'

theorem expectType {ty : Ty} {f : Ty → Parse β} (hs : s.Faces σ (.ofTy ty :: us))
    (hty : Ty.ofKeyword? ty.keyword = some ty)
    (hf : ∀ s', s'.Faces σ us → Yields s' (f ty) G) :
    Yields s (Grammar.expectType >>= f) G := by
  unfold Grammar.expectType
  rw [bind_assoc]
  refine .expect hs rfl fun t' s' ht' hs' => ?_
  have hlexeme : t'.lexeme = ty.keyword := Token.lexeme_of_unlined ht'
  rw [hlexeme, hty]
  exact hf s' hs'

theorem nested {d : Nat} {body : Nat → Parse β} (hd : d < maxNesting)
    (h : Yields s (body (d + 1)) G) : Yields s (nested d body) G := by
  unfold Grammar.nested
  rw [if_neg (Nat.not_le.mpr hd)]
  exact h

theorem declare {τ : Scope} {name : Token} {ty : Ty} {f : Unit → Parse β} (hs : s.Faces σ us)
    (hτ : σ.insert? name.lexeme ty = some τ) (hf : ∀ s', s'.Faces τ us → Yields s' (f ()) G) :
    Yields s (Grammar.declare name ty >>= f) G := by
  refine bind (Q := fun _ u => u = { s with scope := τ }) ?_ ?_
  · unfold Yields Grammar.declare
    rw [hs.scope, hτ]
    exact rfl
  · rintro _ _ rfl
    exact hf _ ⟨rfl, hs.tokens⟩

theorem resolve {name : Token} {ty : Ty} {f : Ty → Parse β} (hs : s.Faces σ us)
    (hty : σ.find? name.lexeme = some ty) (hf : Yields s (f ty) G) :
    Yields s (Grammar.resolve name >>= f) G := by
  refine bind (Q := fun a u => a = ty ∧ u = s) ?_ ?_
  · unfold Yields Grammar.resolve
    rw [hs.scope, hty]
    exact ⟨rfl, rfl⟩
  · rintro _ _ ⟨rfl, rfl⟩
    exact hf

-- What is read in a block of its own leaves the names as they were.
theorem inBlock {seed : Layer} {P : α → Prop} {vs : List Token} (hs : s.Faces σ us)
    (h : ∀ s', s'.Faces (σ.push.insertAll seed) us →
      Yields s' x (Ends fun a u => P a ∧ ∃ τ, u.Faces τ vs ∧ τ.outer = σ.layers)) :
    Yields s (inBlock seed x) (Leaves σ vs P) := by
  have hinner : State.Faces (σ.push.insertAll seed) us
      { s with scope := s.scope.push.insertAll seed } := ⟨hs.scope ▸ rfl, hs.tokens⟩
  refine bind (α := PUnit) (Q := fun _ u => u = { s with scope := s.scope.push.insertAll seed })
    rfl ?_
  rintro _ _ rfl
  refine bind (h _ hinner) ?_
  rintro a u ⟨ha, τ, hu, houter⟩
  refine ⟨ha, ?_, hu.tokens⟩
  exact (congrArg Scope.pop hu.scope).trans (Scope.pop_of_outer houter)

theorem map_some {γ : Type} {g : α → γ} {a : α}
    (h : Yields s x (Leaves σ us fun a' => g a' = g a)) :
    Yields s (some <$> x) (Leaves σ us fun o => o.map g = (some a).map g) :=
  .map (h.imp fun _ _ ht => ⟨congrArg some ht.1, ht.2⟩)

-- Something that a mark of its own stands in front of, or nothing.
theorem optional {γ : Type} {kind : TokenKind} {g : α → γ} {text : α → List Token} {o : Option α}
    {f : Option α → Parse β} (hs : s.Faces σ (o.elim [] (fun a => Token.mark kind :: text a) ++ us))
    (hus : nextKind us ≠ kind)
    (hx : ∀ a ∈ o, ∀ s', s'.Faces σ (text a ++ us) → Yields s' x (Leaves σ us fun a' => g a' = g a))
    (hf : ∀ o' s', o'.map g = o.map g → s'.Faces σ us → Yields s' (f o') G) :
    Yields s (Grammar.accept kind >>= fun found =>
      if found = true then some <$> x >>= f else Pure.pure none >>= f) G := by
  cases o with
  | none =>
    refine .reject hs hus ?_
    exact .bind (.pure (Q := fun o' s' => o' = none ∧ s'.Faces σ us) ⟨rfl, hs⟩)
      fun o' s' ho => hf o' s' (by rw [ho.1]) ho.2
  | some a =>
    refine .accept hs rfl fun s' hs' => ?_
    exact .bind (hx a rfl s' hs').map_some fun o' t ht => hf o' t ht.1 ht.2

-- Something or nothing, up to a token that cannot start it.
theorem bound {γ : Type} {kind : TokenKind} {g : α → γ} {text : α → List Token} {o : Option α}
    {f : Option α → Parse β} (hs : s.Faces σ (o.elim [] text ++ us)) (hus : nextKind us = kind)
    (hstarts : ∀ a ∈ o, nextKind (text a ++ us) ≠ kind)
    (hx : ∀ a ∈ o, ∀ s', s'.Faces σ (text a ++ us) → Yields s' x (Leaves σ us fun a' => g a' = g a))
    (hf : ∀ o' s', o'.map g = o.map g → s'.Faces σ us → Yields s' (f o') G) :
    Yields s (Grammar.check kind >>= fun found =>
      if found = true then Pure.pure none >>= f else some <$> x >>= f) G := by
  refine .check ?_
  rw [hs.kind]
  cases o with
  | none =>
    rw [Option.elim_none, List.nil_append, hus, decide_eq_true rfl]
    exact .bind (.pure (Q := fun o' s' => o' = none ∧ s'.Faces σ us) ⟨rfl, hs⟩)
      fun o' s' ho => hf o' s' (by rw [ho.1]) ho.2
  | some a =>
    rw [Option.elim_some, decide_eq_false (hstarts a rfl)]
    exact .bind (hx a rfl s hs).map_some fun o' t ht => hf o' t ht.1 ht.2

-- Items that are each read back from their own tokens, with commas between them, up to
-- tokens that start no item. What is kept of an item is what `g` gives.
theorem items {γ : Type} {starts : TokenKind → Bool} {g : α → γ} {text : α → List Token}
    {as : List α} {n fuel : Nat} (hstop : starts (nextKind us) = false)
    (hcomma : nextKind us ≠ .comma)
    (hstarts : ∀ a ∈ as, ∀ vs, starts (nextKind (text a ++ vs)) = true)
    (hitem : ∀ a ∈ as, ∀ s vs, s.Faces σ (text a ++ vs) → (text a ++ vs).length ≤ n →
      nextKind vs = .comma ∨ vs = us → Yields s x (Leaves σ vs fun a' => g a' = g a))
    (hs : s.Faces σ (commas (as.map text) ++ us)) (hn : (commas (as.map text) ++ us).length ≤ n)
    (hfuel : (commas (as.map text) ++ us).length < fuel) :
    Yields s (items starts x fuel) (Leaves σ us fun as' => as'.map g = as.map g) := by
  induction as generalizing s fuel with
  | nil =>
    obtain ⟨fuel, rfl⟩ := Nat.exists_eq_succ_of_ne_zero (Nat.ne_zero_of_lt hfuel)
    refine .peek ?_
    rw [hs.kind, List.map_nil, commas, List.nil_append, hstop]
    exact .pure ⟨rfl, hs⟩
  | cons a as ih =>
    obtain ⟨fuel, rfl⟩ := Nat.exists_eq_succ_of_ne_zero (Nat.ne_zero_of_lt hfuel)
    obtain ⟨hstart, hstarts⟩ := List.forall_mem_cons.mp hstarts
    obtain ⟨hhead, hitem⟩ := List.forall_mem_cons.mp hitem
    refine .peek ?_
    cases as with
    | nil =>
      rw [List.map_singleton, commas] at hs hn hfuel
      rw [hs.kind, hstart, if_pos rfl]
      refine .bind (hhead s us hs hn (.inr rfl)) fun a' t ht => ?_
      exact .reject ht.2 hcomma (.pure ⟨congrArg (fun b => [b]) ht.1, ht.2⟩)
    | cons b as =>
      rw [List.map_cons, List.map_cons, commas, List.append_assoc] at hs hn hfuel
      rw [hs.kind, hstart, if_pos rfl]
      refine .bind (hhead s _ hs hn (.inl rfl)) fun a' t ht => ?_
      refine .accept ht.2 rfl fun u hu => ?_
      simp only [List.length_append, List.length_cons] at hn hfuel
      refine .bind (ih hstarts hitem hu (by simp; omega) (by simp; omega)) fun as' v hv => ?_
      exact .pure ⟨List.cons_eq_cons.mpr ⟨ht.1, hv.1⟩, hv.2⟩

end Yields

end Grammar

end Parlance
