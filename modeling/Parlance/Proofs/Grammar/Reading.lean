import Parlance.Proofs.Grammar.Phrase
import Parlance.Proofs.Ordinary

namespace Parlance

theorem Scope.pop_of_outer {σ τ : Scope} (h : τ.outer = σ.layers) : τ.pop = σ := by
  rw [pop, h]
  rfl

theorem Scope.outer_of_insert? {σ τ : Scope} {name : String} {ty : Ty}
    (h : σ.insert? name ty = some τ) : τ.outer = σ.outer := by
  unfold insert? at h
  split at h
  · cases h
  · cases h
    rfl

theorem Scope.outer_insertAll (σ : Scope) (layer : Layer) :
    (σ.insertAll layer).outer = σ.outer := by
  induction layer generalizing σ with
  | nil => rfl
  | cons entry layer ih =>
    rw [insertAll, ih]
    cases h : σ.insert? entry.1 entry.2 with
    | none => rfl
    | some τ => exact outer_of_insert? h

namespace Grammar

-- Relations between tokens and what they are read as, with the names visible at their place
-- and the depth of nesting there. Statements lead to the names visible after them. A suffixed
-- expression is a name with the indices, slices and calls behind it.
structure Reading where
  expr : Scope → Nat → Rank → List Token → Expr → Prop
  suffixed : Scope → Nat → List Token → Expr → Prop
  stmt : Scope → Nat → List Token → Stmt → Scope → Prop
  body : Scope → Nat → List Token → List Stmt → Scope → Prop

namespace Reading

-- A block, one level deeper than its place.
abbrev Block (J : Reading) (σ : Scope) (d : Nat) : List Token → List Stmt → Prop :=
  Enclosed .leftBrace .rightBrace fun ts body => ∃ ρ, J.body σ (d + 1) ts body ρ

abbrev Arguments (J : Reading) (σ : Scope) (d : Nat) : List Token → List Expr → Prop :=
  Enclosed .leftParen .rightParen (Commas (J.expr σ d .assignment))

-- One law for each rule of the grammar. A relation with these laws holds between everything
-- that can be read and what it is read as.
structure Closed (J : Reading) : Prop where
  tighter : ∀ {σ d r ts e}, J.expr σ d r.next ts e → J.expr σ d r ts e
  assign : ∀ {σ d ts target equal us value}, d < maxNesting → J.expr σ d .logicOr ts target →
    target.isAssignable = true → equal.kind = .equal → J.expr σ (d + 1) .assignment us value →
    J.expr σ d .assignment (ts ++ equal :: us) (.assign equal target value)
  binary : ∀ {σ d r ts left operator us right}, J.expr σ d r ts left →
    operator.kind ∈ r.operators → J.expr σ d r.next us right →
    J.expr σ d r (ts ++ operator :: us) (r.node operator left right)
  unary : ∀ {σ d operator ts operand}, d < maxNesting →
    operator.kind = .bang ∨ operator.kind = .minus → J.expr σ (d + 1) .unary ts operand →
    J.expr σ d .unary (operator :: ts) (.unary operator operand)
  constant : ∀ {σ d t}, d < maxNesting → isConstant t.kind = true →
    J.expr σ d .primary [t] (.constant t)
  grouped : ∀ {σ d ts e}, d < maxNesting →
    Enclosed .leftParen .rightParen (J.expr σ (d + 1) .assignment) ts e →
    J.expr σ d .primary ts e
  array : ∀ {σ d bracket ts items close}, d < maxNesting → bracket.kind = .leftBracket →
    Commas (J.expr σ (d + 1) .assignment) ts items → close.kind = .rightBracket →
    J.expr σ d .primary (bracket :: (ts ++ [close])) (.array bracket items)
  dict : ∀ {σ d brace ts entries close}, d < maxNesting → brace.kind = .leftBrace →
    Commas (Keyed (J.expr σ (d + 1) .assignment)) ts entries → close.kind = .rightBrace →
    J.expr σ d .primary (brace :: (ts ++ [close])) (.dict brace entries)
  comprehension : ∀ {σ τ d bracket for' left var ts iterator ty init in' us iterable right arrow vs
      projection close}, d < maxNesting → bracket.kind = .leftBracket → for'.kind = .kwFor →
    left.kind = .leftParen → (∀ t ∈ var, t.kind = .kwVar) →
    Annotated (J.expr σ.push (d + 1) .logicOr) ts iterator ty init →
    σ.push.insert? iterator.lexeme ty = some τ → in'.kind = .kwIn →
    J.expr τ (d + 1) .assignment us iterable → right.kind = .rightParen →
    arrow.kind = .arrow → J.expr τ (d + 1) .assignment vs projection →
    close.kind = .rightBracket →
    J.expr σ d .primary
      (bracket :: for' :: left ::
        (Option.toList var ++ (ts ++ in' :: (us ++ right :: arrow :: (vs ++ [close])))))
      (.comprehension bracket iterator ty init iterable projection)
  primary : ∀ {σ d ts e}, J.suffixed σ d ts e → J.expr σ d .primary ts e
  name : ∀ {σ : Scope} {d t ty}, d < maxNesting → t.kind = .id → σ.find? t.lexeme = some ty →
    J.suffixed σ d [t] (.name t ty)
  call : ∀ {σ : Scope} {d callee ty ts args}, d < maxNesting → callee.kind = .id →
    σ.find? callee.lexeme = some ty → J.Arguments σ (d + 1) ts args →
    J.suffixed σ d (callee :: ts) (.call callee ty args)
  access : ∀ {σ d ts target us index}, d < maxNesting → J.suffixed σ d ts target →
    Enclosed .leftBracket .rightBracket (J.expr σ (d + 1) .sum) us index →
    J.suffixed σ d (ts ++ us) (.access target index)
  slice : ∀ {σ d ts target left us start colon vs stop right}, d < maxNesting →
    J.suffixed σ d ts target → left.kind = .leftBracket →
    Maybe (J.expr σ (d + 1) .sum) us start → colon.kind = .colon →
    Maybe (J.expr σ (d + 1) .sum) vs stop → right.kind = .rightBracket →
    J.suffixed σ d (ts ++ left :: (us ++ colon :: (vs ++ [right]))) (.slice target start stop)
  method : ∀ {σ d ts receiver dot operation us args}, d < maxNesting →
    J.suffixed σ d ts receiver → dot.kind = .dot → operation.kind = .id →
    J.Arguments σ (d + 1) us args →
    J.suffixed σ d (ts ++ dot :: operation :: us) (.method receiver operation args)
  expression : ∀ {σ d ts e}, J.expr σ d .assignment ts e → (∀ t ∈ ts.head?, t.kind = .id) →
    J.stmt σ d ts (.expression e) σ
  declaration : ∀ {σ τ d var ts} {decl : Declaration}, var.kind = .kwVar →
    Annotated (J.expr σ d .logicOr) ts decl.name decl.ty decl.init →
    σ.insert? decl.name.lexeme decl.ty = some τ → J.stmt σ d (var :: ts) (.declaration decl) τ
  function : ∀ {σ τ d keyword name ts params arrow type returns us body}, d < maxNesting →
    keyword.kind = .kwFunc → name.kind = .id → σ.insert? name.lexeme .func = some τ →
    Enclosed .leftParen .rightParen (Commas (Parameter (J.expr τ d .assignment))) ts params →
    (params.map Param.name).Nodup → arrow.kind = .arrow → type.kind = .typeName →
    Ty.ofKeyword? type.lexeme = some returns →
    J.Block (τ.push.insertAll (params.map fun p => (p.name, p.ty))) d us body →
    J.stmt σ d (keyword :: name :: (ts ++ arrow :: type :: us))
      (.function name.lexeme returns params body keyword.line) τ
  ret : ∀ {σ d keyword ts value}, keyword.kind = .kwReturn →
    Maybe (J.expr σ d .logicOr) ts value →
    J.stmt σ d (keyword :: ts) (.ret value keyword.line) σ
  branch : ∀ {σ : Scope} {d keyword ts condition us yes vs no}, d < maxNesting →
    keyword.kind = .kwIf →
    Enclosed .leftParen .rightParen (J.expr σ d .assignment) ts condition →
    J.Block σ.push d us yes → Maybe (Led .kwElse (J.Block σ.push d)) vs no →
    J.stmt σ d (keyword :: (ts ++ (us ++ vs))) (.branch condition yes no) σ
  loop : ∀ {σ : Scope} {d keyword ts condition us body}, d < maxNesting →
    keyword.kind = .kwWhile →
    Enclosed .leftParen .rightParen (J.expr σ d .assignment) ts condition →
    J.Block σ.push d us body → J.stmt σ d (keyword :: (ts ++ us)) (.loop condition body) σ
  each : ∀ {σ : Scope} {d keyword left var ts} {iterator : Declaration} {in' us iterable right vs
      body}, d < maxNesting → keyword.kind = .kwFor → left.kind = .leftParen →
    (∀ t ∈ var, t.kind = .kwVar) →
    Annotated (J.expr σ d .logicOr) ts iterator.name iterator.ty iterator.init →
    in'.kind = .kwIn → J.expr σ d .assignment us iterable → right.kind = .rightParen →
    J.Block (σ.push.insertAll [(iterator.name.lexeme, iterator.ty)]) d vs body →
    J.stmt σ d
      (keyword :: left :: (Option.toList var ++ (ts ++ in' :: (us ++ right :: vs))))
      (.each iterator iterable body) σ
  brk : ∀ {σ d keyword}, keyword.kind = .kwBreak → J.stmt σ d [keyword] (.brk keyword.line) σ
  cont : ∀ {σ d keyword}, keyword.kind = .kwContinue →
    J.stmt σ d [keyword] (.cont keyword.line) σ
  par : ∀ {σ : Scope} {d keyword ts body}, d < maxNesting → keyword.kind = .kwPar →
    J.Block σ.push d ts body → J.stmt σ d (keyword :: ts) (.par body keyword.line) σ
  seq : ∀ {σ : Scope} {d keyword ts body}, d < maxNesting → keyword.kind = .kwSeq →
    J.Block σ.push d ts body → J.stmt σ d (keyword :: ts) (.seq body) σ
  client : ∀ {σ τ d keyword name left ts host comma us port right}, keyword.kind = .kwClient →
    name.kind = .id → σ.insert? name.lexeme .client = some τ → left.kind = .leftBrace →
    J.expr τ d .sum ts host → comma.kind = .comma → J.expr τ d .sum us port →
    right.kind = .rightBrace →
    J.stmt σ d (keyword :: name :: left :: (ts ++ comma :: (us ++ [right])))
      (.client name.lexeme host port keyword.line) τ
  server : ∀ {σ τ : Scope} {d keyword name left handler ty comma ts description comma' us host
      comma'' vs port right}, keyword.kind = .kwServer → name.kind = .id →
    σ.insert? name.lexeme .server = some τ → left.kind = .leftBrace → handler.kind = .id →
    τ.find? handler.lexeme = some ty → comma.kind = .comma →
    J.expr τ d .sum ts description → comma'.kind = .comma → J.expr τ d .sum us host →
    comma''.kind = .comma → J.expr τ d .sum vs port → right.kind = .rightBrace →
    J.stmt σ d
      (keyword :: name :: left :: handler :: comma ::
        (ts ++ comma' :: (us ++ comma'' :: (vs ++ [right]))))
      (.server name.lexeme handler description host port keyword.line) τ
  nil : ∀ {σ d}, J.body σ d [] [] σ
  skip : ∀ {σ τ d semicolon ts body}, semicolon.kind = .semicolon → J.body σ d ts body τ →
    J.body σ d (semicolon :: ts) body τ
  cons : ∀ {σ τ ρ d ts s us rest}, J.stmt σ d ts s τ →
    (s.isBareReturn = true → ∀ t ∈ us.head?, t.kind = .semicolon) → J.body τ d us rest ρ →
    J.body σ d (ts ++ us) (s :: rest) ρ

end Reading

-- The tokens that are left to read.
def State.tokens (s : State) : List Token :=
  s.current :: s.rest

-- The names visible are those of `σ`, and the end of the text is still to be read.
structure State.At (σ : Scope) (s : State) : Prop where
  scope : s.scope = σ
  ends : ∃ t ∈ s.tokens.getLast?, t.kind = .eof

-- If a reader succeeds, `Q` holds of the tokens that it takes, what it gives and what it
-- leaves.
def Reads {α : Type} (s : State) (x : Parse α) (Q : List Token → α → State → Prop) : Prop :=
  ∀ a t, x s = .ok (a, t) → ∃ ts, s.tokens = ts ++ t.tokens ∧ Q ts a t

-- A reader after which the names of `σ` are visible.
abbrev Gives {α : Type} (σ : Scope) (s : State) (x : Parse α) (P : List Token → α → Prop) :
    Prop :=
  Reads s x fun ts a t => t.At σ ∧ P ts a

namespace Reads

variable {α β : Type} {σ : Scope} {s : State} {x : Parse α} {Q R : List Token → α → State → Prop}
  {S : List Token → β → State → Prop} {P : List Token → α → Prop}

theorem imp (h : Reads s x Q) (hQ : ∀ ts a t, Q ts a t → R ts a t) : Reads s x R := by
  intro a t hx
  obtain ⟨ts, hts, hq⟩ := h a t hx
  exact ⟨ts, hts, hQ ts a t hq⟩

-- The first token that is taken is the one that comes next.
theorem head (h : Reads s x Q) :
    Reads s x fun ts a t => Q ts a t ∧ ∀ u ∈ ts.head?, u = s.current := by
  intro a t hx
  obtain ⟨ts, hts, hq⟩ := h a t hx
  refine ⟨ts, hts, hq, fun u hu => ?_⟩
  cases ts with
  | nil => cases hu
  | cons v ts =>
    cases hu
    exact (List.cons.inj hts).1.symm

theorem pure {a : α} (hQ : Q [] a s) : Reads s (pure a) Q := by
  rintro _ _ ⟨⟩
  exact ⟨[], rfl, hQ⟩

theorem fail (fault : Fault) : Reads s (fail fault) Q := by
  rintro _ _ ⟨⟩

theorem outOfFuel : Reads s outOfFuel Q := by
  rintro _ _ ⟨⟩

theorem unexpected (wanted : String) : Reads s (unexpected wanted) Q := by
  rintro _ _ ⟨⟩

theorem bind {f : α → Parse β} (h : Reads s x Q)
    (hf : ∀ ts a t, Q ts a t → Reads t (f a) fun us b u => S (ts ++ us) b u) :
    Reads s (x >>= f) S := by
  intro b u hb
  obtain ⟨⟨a, t⟩, hx, hfa⟩ := bind_eq_ok.mp hb
  obtain ⟨ts, hts, hq⟩ := h a t hx
  obtain ⟨us, hus, hs⟩ := hf ts a t hq b u hfa
  refine ⟨ts ++ us, ?_, hs⟩
  rw [hts, hus, List.append_assoc]

-- The last reader, before its result is made into another one.
theorem last {f : α → β} (h : Reads s x Q) (hf : ∀ ts a t, Q ts a t → S ts (f a) t) :
    Reads s (do let a ← x; return f a) S := by
  intro b u hb
  obtain ⟨⟨a, t⟩, hx, hfa⟩ := bind_eq_ok.mp hb
  cases hfa
  obtain ⟨ts, hts, hq⟩ := h a u hx
  exact ⟨ts, hts, hf ts a u hq⟩

theorem map {f : α → β} (h : Reads s x fun ts a t => S ts (f a) t) : Reads s (f <$> x) S :=
  last h fun _ _ _ hs => hs

theorem peek {f : Token → Parse β} (h : Reads s (f s.current) S) :
    Reads s (Grammar.peek >>= f) S :=
  h

theorem check {kind : TokenKind} {f : Bool → Parse β}
    (h : Reads s (f (decide (s.current.kind = kind))) S) : Reads s (Grammar.check kind >>= f) S :=
  h

-- The end of the text is never taken, so there is a next token after every other one.
theorem advance {f : Token → Parse β} (hs : s.At σ) (hkind : s.current.kind ≠ .eof)
    (hf : ∀ t, t.At σ → Reads t (f s.current) fun us b u => S (s.current :: us) b u) :
    Reads s (Grammar.advance >>= f) S := by
  intro b u hb
  obtain ⟨⟨a, t⟩, hx, hfa⟩ := bind_eq_ok.mp hb
  obtain ⟨last, hlast, heof⟩ := hs.ends
  unfold Grammar.advance at hx
  split at hx
  · next hrest =>
    rw [State.tokens, hrest] at hlast
    cases hlast
    exact absurd heof hkind
  · next token rest hrest =>
    cases hx
    have htokens : s.tokens = s.current :: (token :: rest) := by
      rw [State.tokens, hrest]
    have hends : ∃ t ∈ (token :: rest).getLast?, t.kind = .eof := by
      refine ⟨last, ?_, heof⟩
      rw [htokens, List.getLast?_cons_cons] at hlast
      exact hlast
    obtain ⟨us, hus, hs⟩ := hf { s with current := token, rest := rest } ⟨hs.scope, hends⟩ b u hfa
    refine ⟨s.current :: us, ?_, hs⟩
    rw [htokens, List.cons_append, ← hus]
    rfl

theorem accept {kind : TokenKind} {f : Bool → Parse β} (hs : s.At σ) (hkind : kind ≠ .eof)
    (hyes : s.current.kind = kind → ∀ t, t.At σ →
      Reads t (f true) fun us b u => S (s.current :: us) b u)
    (hno : s.current.kind ≠ kind → Reads s (f false) S) :
    Reads s (Grammar.accept kind >>= f) S := by
  unfold Grammar.accept
  rw [bind_assoc]
  refine .check ?_
  by_cases h : s.current.kind = kind
  · simp only [h, decide_true, ite_true, bind_assoc, pure_bind]
    exact .advance hs (h ▸ hkind) (hyes h)
  · simp only [h, decide_false, Bool.false_eq_true, ite_false, pure_bind]
    exact hno h

theorem expect {kind : TokenKind} {wanted : String} {f : Token → Parse β} (hs : s.At σ)
    (hkind : kind ≠ .eof)
    (hf : ∀ token t, token.kind = kind → t.At σ →
      Reads t (f token) fun us b u => S (token :: us) b u) :
    Reads s (Grammar.expect kind wanted >>= f) S := by
  unfold Grammar.expect
  rw [bind_assoc]
  refine .check ?_
  by_cases h : s.current.kind = kind
  · simp only [h, decide_true, ite_true]
    exact .advance hs (h ▸ hkind) fun t ht => hf s.current t h ht
  · simp only [h, decide_false, Bool.false_eq_true, ite_false]
    rintro _ _ ⟨⟩

theorem expectType {f : Ty → Parse β} (hs : s.At σ)
    (hf : ∀ token ty t, token.kind = .typeName → Ty.ofKeyword? token.lexeme = some ty → t.At σ →
      Reads t (f ty) fun us b u => S (token :: us) b u) :
    Reads s (Grammar.expectType >>= f) S := by
  unfold Grammar.expectType
  rw [bind_assoc]
  refine .expect hs (by decide) fun token t hkind ht => ?_
  cases hty : Ty.ofKeyword? token.lexeme with
  | some ty =>
    simp only [pure_bind]
    exact hf token ty t hkind hty ht
  | none =>
    intro b u hb
    cases hb

theorem nested {depth : Nat} {body : Nat → Parse α}
    (h : depth < maxNesting → Reads s (body (depth + 1)) Q) : Reads s (nested depth body) Q := by
  unfold Grammar.nested
  split
  · exact .peek (.fail _)
  · next hdepth => exact h (Nat.lt_of_not_le hdepth)

theorem declare {name : Token} {ty : Ty} {f : Unit → Parse β} (hs : s.At σ)
    (hf : ∀ τ t, σ.insert? name.lexeme ty = some τ → t.At τ → Reads t (f ()) S) :
    Reads s (Grammar.declare name ty >>= f) S := by
  intro b u hb
  obtain ⟨⟨a, t⟩, hx, hfa⟩ := bind_eq_ok.mp hb
  unfold Grammar.declare at hx
  split at hx
  · next τ hτ =>
    cases hx
    exact hf τ { s with scope := τ } (hs.scope ▸ hτ) ⟨rfl, hs.ends⟩ b u hfa
  · cases hx

theorem resolve {name : Token} {f : Ty → Parse β} (hs : s.At σ)
    (hf : ∀ ty, σ.find? name.lexeme = some ty → Reads s (f ty) S) :
    Reads s (Grammar.resolve name >>= f) S := by
  intro b u hb
  obtain ⟨⟨a, t⟩, hx, hfa⟩ := bind_eq_ok.mp hb
  unfold Grammar.resolve at hx
  split at hx
  · next hty =>
    cases hx
    exact hf _ (hs.scope ▸ hty) b u hfa
  · cases hx

-- What is read in a block of its own leaves the names as they were.
theorem inBlock {seed : Layer} {body : Parse α} (hs : s.At σ)
    (h : ∀ t, t.At (σ.push.insertAll seed) →
      Reads t body fun ts a u => (∃ τ, u.At τ ∧ τ.outer = σ.layers) ∧ P ts a) :
    Gives σ s (inBlock seed body) P := by
  intro a u hu
  obtain ⟨⟨b, v⟩, hv, hu⟩ := bind_eq_ok.mp hu
  have hinner : State.At (σ.push.insertAll seed)
      { s with scope := s.scope.push.insertAll seed } := ⟨hs.scope ▸ rfl, hs.ends⟩
  obtain ⟨ts, hts, ⟨τ, hτ, houter⟩, hP⟩ := h _ hinner b v hv
  cases hu
  refine ⟨ts, hts, ⟨?_, hτ.ends⟩, hP⟩
  exact (congrArg Scope.pop hτ.scope).trans (Scope.pop_of_outer houter)

-- What is read again and again, with the same names visible each time.
theorem items {starts : TokenKind → Bool} {item : Parse α} (fuel : Nat) (hs : s.At σ)
    (h : ∀ t, t.At σ → Gives σ t item P) :
    Gives σ s (items starts item fuel) (Commas P) := by
  induction fuel generalizing s with
  | zero => exact .outOfFuel
  | succ fuel ih =>
    refine .peek ?_
    split
    · refine .bind (h s hs) fun ts a t ha => ?_
      obtain ⟨ht, ha⟩ := ha
      refine .accept ht (by decide) (fun hcomma u hu => ?_) fun _ => ?_
      · exact .last (ih hu) fun us as v has => ⟨has.1, .cons ha hcomma has.2⟩
      · refine .pure ⟨ht, ?_⟩
        rw [List.append_nil]
        exact .last ha
    · exact .pure ⟨hs, .nil⟩

end Reads

end Grammar

end Parlance
