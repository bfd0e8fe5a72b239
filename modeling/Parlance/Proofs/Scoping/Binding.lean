import Parlance.Host.Local
import Parlance.Proofs.Nesting
import Parlance.Proofs.Resolution

namespace Parlance

namespace Expr

mutual

-- The names that are looked up where an expression stands. Those that mean the iterator of one
-- of its own comprehensions are not among them.
def mentions : Expr → List String
  | constant _ => []
  | name token _ => [token.lexeme]
  | access target index => target.mentions ++ index.mentions
  | slice target start stop =>
    target.mentions ++ (mentionsOfOption start ++ mentionsOfOption stop)
  | logical _ left right => left.mentions ++ right.mentions
  | relational _ left right => left.mentions ++ right.mentions
  | arithmetic _ left right => left.mentions ++ right.mentions
  | unary _ operand => operand.mentions
  | call callee _ args => callee.lexeme :: mentionsOf args
  | method receiver _ args => receiver.mentions ++ mentionsOf args
  | array _ items => mentionsOf items
  | dict _ entries => mentionsOfEntries entries
  | assign _ target value => target.mentions ++ value.mentions
  | comprehension _ iterator _ initial iterable projection =>
    mentionsOfOption initial ++
      (iterable.mentions ++ projection.mentions).filter (· != iterator.lexeme)

def mentionsOf : List Expr → List String
  | [] => []
  | e :: rest => e.mentions ++ mentionsOf rest

def mentionsOfEntries : List (String × Expr) → List String
  | [] => []
  | (_, e) :: rest => e.mentions ++ mentionsOfEntries rest

def mentionsOfOption : Option Expr → List String
  | none => []
  | some e => e.mentions

end

variable {x : String}

theorem mem_mentionsOf {es : List Expr} : x ∈ mentionsOf es ↔ ∃ e ∈ es, x ∈ e.mentions := by
  induction es with
  | nil => simp [mentionsOf]
  | cons e es ih => simp [mentionsOf, ih]

theorem mem_mentionsOfEntries {es : List (String × Expr)} :
    x ∈ mentionsOfEntries es ↔ ∃ e ∈ es, x ∈ e.2.mentions := by
  induction es with
  | nil => simp [mentionsOfEntries]
  | cons e es ih =>
    simp only [mentionsOfEntries, List.mem_append, ih, List.mem_cons, or_and_right, exists_or,
      exists_eq_left]

theorem mem_mentionsOfOption {o : Option Expr} :
    x ∈ mentionsOfOption o ↔ ∃ e ∈ o, x ∈ e.mentions := by
  cases o <;> simp [mentionsOfOption]

end Expr

namespace Scope

theorem find?_push (σ : Scope) (x : String) : σ.push.find? x = σ.find? x := by
  rfl

-- In a new block every name is new.
theorem insert?_push (σ : Scope) (name : String) (ty : Ty) :
    σ.push.insert? name ty = some (σ.push.insertAll [(name, ty)]) := by
  rfl

end Scope

namespace Expr

-- A scoped expression is scoped wherever its names mean the same.
theorem Scoped.congr {τ : Scope} {e : Expr} (h : e.Scoped τ) {σ : Scope}
    (hsame : ∀ x ∈ e.mentions, σ.find? x = τ.find? x) : e.Scoped σ := by
  induction h generalizing σ with
  | constant token => exact .constant token
  | name hfind => exact .name ((hsame _ (List.mem_singleton.mpr rfl)).trans hfind)
  | access _ _ ihtarget ihindex =>
    exact .access (ihtarget fun x hx => hsame x (List.mem_append_left _ hx))
      (ihindex fun x hx => hsame x (List.mem_append_right _ hx))
  | slice _ _ _ ihtarget ihstart ihstop =>
    simp only [mentions, List.mem_append, mem_mentionsOfOption] at hsame
    exact .slice (ihtarget fun x hx => hsame x (.inl hx))
      (fun e he => ihstart e he fun x hx => hsame x (.inr (.inl ⟨e, he, hx⟩)))
      (fun e he => ihstop e he fun x hx => hsame x (.inr (.inr ⟨e, he, hx⟩)))
  | logical op _ _ ihleft ihright =>
    exact .logical op (ihleft fun x hx => hsame x (List.mem_append_left _ hx))
      (ihright fun x hx => hsame x (List.mem_append_right _ hx))
  | relational op _ _ ihleft ihright =>
    exact .relational op (ihleft fun x hx => hsame x (List.mem_append_left _ hx))
      (ihright fun x hx => hsame x (List.mem_append_right _ hx))
  | arithmetic op _ _ ihleft ihright =>
    exact .arithmetic op (ihleft fun x hx => hsame x (List.mem_append_left _ hx))
      (ihright fun x hx => hsame x (List.mem_append_right _ hx))
  | unary op _ ih => exact .unary op (ih hsame)
  | call hfind _ ih =>
    simp only [mentions, List.mem_cons, mem_mentionsOf] at hsame
    exact .call ((hsame _ (.inl rfl)).trans hfind)
      fun e he => ih e he fun x hx => hsame x (.inr ⟨e, he, hx⟩)
  | method operation _ _ ihreceiver ihargs =>
    simp only [mentions, List.mem_append, mem_mentionsOf] at hsame
    exact .method operation (ihreceiver fun x hx => hsame x (.inl hx))
      fun e he => ihargs e he fun x hx => hsame x (.inr ⟨e, he, hx⟩)
  | array bracket _ ih =>
    exact .array bracket fun e he => ih e he fun x hx => hsame x (mem_mentionsOf.mpr ⟨e, he, hx⟩)
  | dict brace _ ih =>
    exact .dict brace fun e he => ih e he fun x hx =>
      hsame x (mem_mentionsOfEntries.mpr ⟨e, he, hx⟩)
  | assign equal _ _ ihtarget ihvalue =>
    exact .assign equal (ihtarget fun x hx => hsame x (List.mem_append_left _ hx))
      (ihvalue fun x hx => hsame x (List.mem_append_right _ hx))
  | @comprehension τ τ' iterator ty initial iterable projection bracket _ hiterator _ _ ihinitial
      ihiterable ihprojection =>
    simp only [mentions, List.mem_append, mem_mentionsOfOption, List.mem_filter, bne_iff_ne]
      at hsame
    -- The iterator means the same in both, and all other names do by assumption.
    have hinner : ∀ x, (x ≠ iterator.lexeme → σ.find? x = τ.find? x) →
        (σ.push.insertAll [(iterator.lexeme, ty)]).find? x = τ'.find? x := by
      intro x hx
      rw [Scope.find?_insert? (σ.insert?_push iterator.lexeme ty), Scope.find?_insert? hiterator,
        Scope.find?_push, Scope.find?_push]
      split
      · rfl
      · next hne => exact hx hne
    refine .comprehension bracket (fun e he => ihinitial e he fun x hx => ?_)
      (σ.insert?_push iterator.lexeme ty)
      (ihiterable fun x hx => hinner x fun hne => hsame x (.inr ⟨.inl hx, hne⟩))
      (ihprojection fun x hx => hinner x fun hne => hsame x (.inr ⟨.inr hx, hne⟩))
    rw [Scope.find?_push, Scope.find?_push]
    exact hsame x (.inl ⟨e, he, hx⟩)

-- All names of a scoped expression are declared.
theorem Scoped.declared {σ : Scope} {e : Expr} (h : e.Scoped σ) {x : String}
    (hx : x ∈ e.mentions) : ∃ ty, σ.find? x = some ty := by
  induction h with
  | constant token => cases hx
  | name hfind =>
    cases List.mem_singleton.mp hx
    exact ⟨_, hfind⟩
  | access _ _ ihtarget ihindex | assign _ _ _ ihtarget ihindex | logical _ _ _ ihtarget ihindex
  | relational _ _ _ ihtarget ihindex | arithmetic _ _ _ ihtarget ihindex =>
    exact (List.mem_append.mp hx).elim ihtarget ihindex
  | slice _ _ _ ihtarget ihstart ihstop =>
    simp only [mentions, List.mem_append, mem_mentionsOfOption] at hx
    rcases hx with hx | ⟨e, he, hx⟩ | ⟨e, he, hx⟩
    · exact ihtarget hx
    · exact ihstart e he hx
    · exact ihstop e he hx
  | unary _ _ ih => exact ih hx
  | call hfind _ ih =>
    rcases List.mem_cons.mp hx with rfl | hx
    · exact ⟨_, hfind⟩
    · obtain ⟨e, he, hx⟩ := mem_mentionsOf.mp hx
      exact ih e he hx
  | method _ _ _ ihreceiver ihargs =>
    rcases List.mem_append.mp hx with hx | hx
    · exact ihreceiver hx
    · obtain ⟨e, he, hx⟩ := mem_mentionsOf.mp hx
      exact ihargs e he hx
  | array _ _ ih =>
    obtain ⟨e, he, hx⟩ := mem_mentionsOf.mp hx
    exact ih e he hx
  | dict _ _ ih =>
    obtain ⟨e, he, hx⟩ := mem_mentionsOfEntries.mp hx
    exact ih e he hx
  | @comprehension σ τ iterator ty initial iterable projection bracket _ hiterator _ _ ihinitial
      ihiterable ihprojection =>
    simp only [mentions, List.mem_append, mem_mentionsOfOption, List.mem_filter, bne_iff_ne] at hx
    rcases hx with ⟨e, he, hx⟩ | ⟨hx, hne⟩
    · rw [← Scope.find?_push]
      exact ihinitial e he hx
    · obtain ⟨found, hfound⟩ := hx.elim ihiterable ihprojection
      rw [Scope.find?_insert? hiterator, if_neg hne, Scope.find?_push] at hfound
      exact ⟨found, hfound⟩

end Expr

-- A place where a variable is introduced: the names that can be seen there before, the variable,
-- and what is evaluated before it is bound. The variable may be declared before that is read.
structure Binding where
  scope : Scope
  name : String
  ty : Ty
  operands : List Expr
  early : Bool

namespace Binding

-- The names that can be seen where the operands are read.
def reading (b : Binding) : Scope :=
  if b.early then b.scope.insertAll [(b.name, b.ty)] else b.scope

-- The operands are scoped where they are read, and the variable is new if it is declared there.
structure Resolved (b : Binding) : Prop where
  operands : ∀ e ∈ b.operands, e.Scoped b.reading
  declared : b.early = true → b.scope.insert? b.name b.ty = some b.reading

end Binding

namespace Expr

mutual

-- The places inside an expression where a variable is introduced.
def bindings (σ : Scope) : Expr → List Binding
  | constant _ => []
  | name _ _ => []
  | access target index => target.bindings σ ++ index.bindings σ
  | slice target start stop =>
    target.bindings σ ++ (bindingsOfOption σ start ++ bindingsOfOption σ stop)
  | logical _ left right => left.bindings σ ++ right.bindings σ
  | relational _ left right => left.bindings σ ++ right.bindings σ
  | arithmetic _ left right => left.bindings σ ++ right.bindings σ
  | unary _ operand => operand.bindings σ
  | call _ _ args => bindingsOf σ args
  | method receiver _ args => receiver.bindings σ ++ bindingsOf σ args
  | array _ items => bindingsOf σ items
  | dict _ entries => bindingsOfEntries σ entries
  | assign _ target value => target.bindings σ ++ value.bindings σ
  | comprehension _ iterator ty initial iterable projection =>
    ⟨σ.push, iterator.lexeme, ty, [iterable], true⟩ ::
      (bindingsOfOption σ.push initial ++
        (iterable.bindings (σ.push.insertAll [(iterator.lexeme, ty)]) ++
          projection.bindings (σ.push.insertAll [(iterator.lexeme, ty)])))

def bindingsOf (σ : Scope) : List Expr → List Binding
  | [] => []
  | e :: rest => e.bindings σ ++ bindingsOf σ rest

def bindingsOfEntries (σ : Scope) : List (String × Expr) → List Binding
  | [] => []
  | (_, e) :: rest => e.bindings σ ++ bindingsOfEntries σ rest

def bindingsOfOption (σ : Scope) : Option Expr → List Binding
  | none => []
  | some e => e.bindings σ

end

variable {σ : Scope} {b : Binding}

theorem mem_bindingsOf {es : List Expr} : b ∈ bindingsOf σ es ↔ ∃ e ∈ es, b ∈ e.bindings σ := by
  induction es with
  | nil => simp [bindingsOf]
  | cons e es ih => simp [bindingsOf, ih]

theorem mem_bindingsOfEntries {es : List (String × Expr)} :
    b ∈ bindingsOfEntries σ es ↔ ∃ e ∈ es, b ∈ e.2.bindings σ := by
  induction es with
  | nil => simp [bindingsOfEntries]
  | cons e es ih =>
    simp only [bindingsOfEntries, List.mem_append, ih, List.mem_cons, or_and_right, exists_or,
      exists_eq_left]

theorem mem_bindingsOfOption {o : Option Expr} :
    b ∈ bindingsOfOption σ o ↔ ∃ e ∈ o, b ∈ e.bindings σ := by
  cases o <;> simp [bindingsOfOption]

theorem Scoped.resolved {e : Expr} (h : e.Scoped σ) (hb : b ∈ e.bindings σ) : b.Resolved := by
  induction h with
  | constant | name => cases hb
  | access _ _ ihleft ihright | assign _ _ _ ihleft ihright | logical _ _ _ ihleft ihright
  | relational _ _ _ ihleft ihright | arithmetic _ _ _ ihleft ihright =>
    exact (List.mem_append.mp hb).elim ihleft ihright
  | slice _ _ _ ihtarget ihstart ihstop =>
    simp only [bindings, List.mem_append, mem_bindingsOfOption] at hb
    rcases hb with hb | ⟨e, he, hb⟩ | ⟨e, he, hb⟩
    · exact ihtarget hb
    · exact ihstart e he hb
    · exact ihstop e he hb
  | unary _ _ ih => exact ih hb
  | call _ _ ih | array _ _ ih =>
    obtain ⟨e, he, hb⟩ := mem_bindingsOf.mp hb
    exact ih e he hb
  | method _ _ _ ihreceiver ihargs =>
    rcases List.mem_append.mp hb with hb | hb
    · exact ihreceiver hb
    · obtain ⟨e, he, hb⟩ := mem_bindingsOf.mp hb
      exact ihargs e he hb
  | dict _ _ ih =>
    obtain ⟨e, he, hb⟩ := mem_bindingsOfEntries.mp hb
    exact ih e he hb
  | @comprehension σ τ iterator ty initial iterable projection bracket _ hiterator hiterable _
      ihinitial ihiterable ihprojection =>
    obtain rfl : τ = σ.push.insertAll [(iterator.lexeme, ty)] := resolving.eq_insertAll hiterator
    simp only [bindings, List.mem_cons, List.mem_append, mem_bindingsOfOption] at hb
    rcases hb with rfl | ⟨e, he, hb⟩ | hb | hb
    · exact ⟨List.forall_mem_singleton.mpr hiterable, fun _ => hiterator⟩
    · exact ihinitial e he hb
    · exact ihiterable hb
    · exact ihprojection hb

end Expr

namespace Stmt

-- The variable that a statement introduces. The iterator of a loop is declared when the body
-- is read, and a channel before its operands are.
def binding? (σ : Scope) (s : Stmt) : Option Binding :=
  match s with
  | declaration d => some ⟨σ, d.name.lexeme, d.ty, s.operands, false⟩
  | each iterator _ _ => some ⟨σ, iterator.name.lexeme, iterator.ty, s.operands, false⟩
  | client name _ _ _ => some ⟨σ, name, .client, s.operands, true⟩
  | server name _ _ _ _ _ => some ⟨σ, name, .server, s.operands, true⟩
  | _ => none

-- The names that can be seen where the expressions of a statement are read.
def reading (σ : Scope) : Stmt → Scope
  | declaration _ => σ
  | s => s.scopeAfter σ

-- The names that can be seen where its blocks start.
def inside (σ : Scope) (s : Stmt) : Scope :=
  match s with
  | function _ _ params _ _ => (s.scopeAfter σ).push.insertAll (params.map fun p => (p.name, p.ty))
  | each iterator _ _ => σ.push.insertAll [(iterator.name.lexeme, iterator.ty)]
  | _ => σ.push

-- The places where a variable is introduced by a statement or in its expressions.
def ownBindings (σ : Scope) (s : Stmt) : List Binding :=
  (s.binding? σ).toList ++ Expr.bindingsOf (s.reading σ) s.beside

mutual

-- The places inside a statement where a variable is introduced.
def bindings (σ : Scope) : Stmt → List Binding
  | function name returns params body line =>
    ownBindings σ (function name returns params body line) ++
      bindingsAll (inside σ (function name returns params body line)) body
  | branch condition yes no =>
    ownBindings σ (branch condition yes no) ++
      (bindingsAll (inside σ (branch condition yes no)) yes ++
        bindingsElse (inside σ (branch condition yes no)) no)
  | loop condition body =>
    ownBindings σ (loop condition body) ++ bindingsAll (inside σ (loop condition body)) body
  | each iterator iterable body =>
    ownBindings σ (each iterator iterable body) ++
      bindingsAll (inside σ (each iterator iterable body)) body
  | par body line => ownBindings σ (par body line) ++ bindingsAll (inside σ (par body line)) body
  | seq body => ownBindings σ (seq body) ++ bindingsAll (inside σ (seq body)) body
  | s => ownBindings σ s

def bindingsAll (σ : Scope) : List Stmt → List Binding
  | [] => []
  | s :: rest => s.bindings σ ++ bindingsAll (scopeAfter σ s) rest

def bindingsElse (σ : Scope) : Option (List Stmt) → List Binding
  | none => []
  | some body => bindingsAll σ body

end

variable {σ τ : Scope} {b : Binding} {s : Stmt}

theorem mem_bindings : b ∈ s.bindings σ ↔
    b ∈ s.ownBindings σ ∨ ∃ body ∈ s.bodies, b ∈ bindingsAll (s.inside σ) body := by
  cases s with
  | branch condition yes no => cases no <;> simp [bindings, bindingsElse, bodies, blocks]
  | _ => simp [bindings, bodies, blocks]

-- A name that is declared before the operands are read.
theorem resolved_early {name : String} {ty : Ty} {operands : List Expr}
    (h : σ.insert? name ty = some τ) (hoperands : ∀ e ∈ operands, e.Scoped τ) :
    (Binding.mk σ name ty operands true).Resolved := by
  have hreading : (Binding.mk σ name ty operands true).reading = τ :=
    (resolving.eq_insertAll h).symm
  exact ⟨fun e he => hreading ▸ hoperands e he, fun _ => hreading ▸ h⟩

theorem resolved_late {name : String} {ty : Ty} {operands : List Expr}
    (hoperands : ∀ e ∈ operands, e.Scoped σ) :
    (Binding.mk σ name ty operands false).Resolved := by
  refine ⟨hoperands, fun h => ?_⟩
  cases h

theorem Scoped.resolved_binding? (h : s.Scoped σ τ) (hb : s.binding? σ = some b) :
    b.Resolved := by
  cases h with
  | declaration hinit _ =>
    cases hb
    exact resolved_late fun e he => hinit e (Option.mem_toList.mp he)
  | each _ hiterable _ =>
    cases hb
    exact resolved_late (List.forall_mem_singleton.mpr hiterable)
  | client _ hτ hhost hport =>
    cases hb
    exact resolved_early hτ (by simpa [operands] using ⟨hhost, hport⟩)
  | server _ hτ _ hdescription hhost hport =>
    cases hb
    exact resolved_early hτ (by simpa [operands] using ⟨hdescription, hhost, hport⟩)
  | _ => cases hb

theorem Scoped.eq_scopeAfter (h : s.Scoped σ τ) : τ = s.scopeAfter σ := by
  cases h with
  | declaration _ h | function _ _ h | client _ h | server _ h => exact resolving.eq_insertAll h
  | _ => rfl

-- What a scoped statement is made of is scoped.
theorem Scoped.beside (h : s.Scoped σ τ) : ∀ e ∈ s.beside, e.Scoped (s.reading σ) := by
  have hτ := h.eq_scopeAfter
  intro e he
  cases h with
  | expression h | branch h _ _ | loop h _ =>
    cases List.mem_singleton.mp he
    exact h
  | declaration h _ | ret _ h => exact h e (Option.mem_toList.mp he)
  | function _ _ _ hparams _ =>
    obtain ⟨p, hp, he⟩ := List.mem_filterMap.mp he
    subst hτ
    exact hparams p hp e he
  | each hinit hiterable _ =>
    rcases List.mem_append.mp he with he | he
    · exact hinit e (Option.mem_toList.mp he)
    · cases List.mem_singleton.mp he
      exact hiterable
  | client _ _ hhost hport =>
    simp only [Stmt.beside, expressions, operands, List.mem_cons, List.not_mem_nil, or_false] at he
    subst hτ
    rcases he with rfl | rfl
    · exact hhost
    · exact hport
  | server _ _ _ hdescription hhost hport =>
    simp only [Stmt.beside, expressions, operands, List.mem_cons, List.not_mem_nil, or_false] at he
    subst hτ
    rcases he with rfl | rfl | rfl
    · exact hdescription
    · exact hhost
    · exact hport
  | _ => cases he

theorem Scoped.bodies (h : s.Scoped σ τ) :
    ∀ body ∈ s.bodies, Block.Scoped (s.inside σ) body := by
  have hτ := h.eq_scopeAfter
  intro body hbody
  cases h with
  | function _ _ _ _ h =>
    cases List.mem_singleton.mp hbody
    subst hτ
    exact h
  | loop _ h | each _ _ h | par _ h | seq h =>
    cases List.mem_singleton.mp hbody
    exact h
  | branch _ hyes hno =>
    rcases List.mem_cons.mp hbody with rfl | hbody
    · exact hyes
    · exact hno body (Option.mem_toList.mp hbody)
  | _ => cases hbody

theorem exists_of_mem_bindingsAll {body : List Stmt} (h : Block.Scoped σ body)
    (hb : b ∈ bindingsAll σ body) : ∃ s ∈ body, ∃ ρ ρ', s.Scoped ρ ρ' ∧ b ∈ s.bindings ρ := by
  induction body generalizing σ with
  | nil => cases hb
  | cons s rest ih =>
    cases h with
    | cons head tail =>
      rcases List.mem_append.mp hb with hb | hb
      · exact ⟨s, List.mem_cons_self, σ, _, head, hb⟩
      · obtain ⟨t, ht, hscoped⟩ := ih tail (head.eq_scopeAfter ▸ hb)
        exact ⟨t, List.mem_cons_of_mem s ht, hscoped⟩

theorem Scoped.resolved (h : s.Scoped σ τ) (hb : b ∈ s.bindings σ) : b.Resolved := by
  induction hsize : sizeOf s using Nat.strongRecOn generalizing s σ τ with
  | ind size ih =>
    rcases mem_bindings.mp hb with hb | ⟨body, hbody, hb⟩
    · rcases List.mem_append.mp hb with hb | hb
      · exact h.resolved_binding? (Option.mem_toList.mp hb)
      · obtain ⟨e, he, hb⟩ := Expr.mem_bindingsOf.mp hb
        exact (h.beside e he).resolved hb
    · obtain ⟨t, ht, ρ, ρ', hscoped, hb⟩ := exists_of_mem_bindingsAll (h.bodies body hbody) hb
      exact ih (sizeOf t) (hsize ▸ sizeOf_lt_of_mem_bodies hbody ht) hscoped hb rfl

end Stmt

-- The places in a program where a variable is introduced.
def Program.bindings (p : Program) : List Binding :=
  Stmt.bindingsAll Scope.root p

theorem Program.resolved {source : String} {p : Program} (hp : parse source = .ok p)
    {b : Binding} (hb : b ∈ Program.bindings p) : b.Resolved := by
  obtain ⟨s, -, σ, τ, hs, hb⟩ := Stmt.exists_of_mem_bindingsAll (scoped_of_parse hp) hb
  exact hs.resolved hb

-- What is evaluated before a variable is bound does not see it, if the variable is declared by a
-- `var` statement or a `for` statement, or if its name does not occur there. Comprehensions and
-- channels are declared too early: their own name is looked up as that of the new variable.
theorem operands_resolved_before_binding {source : String} {p : Program}
    (hp : parse source = .ok p) {b : Binding} (hb : b ∈ Program.bindings p) {e : Expr}
    (he : e ∈ b.operands) :
    e.Scoped b.reading ∧
    (b.early = true → b.reading.find? b.name = some b.ty) ∧
    (b.early = false ∨ b.name ∉ e.mentions →
      e.Scoped b.scope ∧ ∀ x ∈ e.mentions, ∃ ty, b.scope.find? x = some ty) := by
  have hresolved := Program.resolved hp hb
  have hscoped := hresolved.operands e he
  refine ⟨hscoped, fun hearly => ?_, fun hfree => ?_⟩
  · rw [Scope.find?_insert? (hresolved.declared hearly), if_pos rfl]
  · have hscope : e.Scoped b.scope := by
      refine hscoped.congr fun x hx => ?_
      cases hearly : b.early with
      | false => simp [Binding.reading, hearly]
      | true =>
        have hname : b.name ∉ e.mentions := by simpa [hearly] using hfree
        have hne : x ≠ b.name := by
          rintro rfl
          exact hname hx
        rw [Scope.find?_insert? (hresolved.declared hearly), if_neg hne]
    exact ⟨hscope, fun x hx => hscope.declared hx⟩

-- A loop over the variable that its iterator hides.
def hidingLoop : String :=
  "var x: list = [1]
  for (x: number in x) \x7b print(x) \x7d"

set_option maxRecDepth 10000 in
theorem hidingLoop_resolved_before_binding :
    ∃ p, parse hidingLoop = .ok p ∧ ∃ b ∈ Program.bindings p, ∃ e ∈ b.operands,
      b.early = false ∧ b.name ∈ e.mentions ∧ ∃ ty, b.scope.find? b.name = some ty := by
  obtain ⟨p, hp, b, hb, e, he, hearly, hmem⟩ : ∃ p, parse hidingLoop = .ok p ∧
      ∃ b ∈ Program.bindings p, ∃ e ∈ b.operands, b.early = false ∧ b.name ∈ e.mentions :=
    exists_of_any (by decide +kernel)
  obtain ⟨-, -, hbefore⟩ := operands_resolved_before_binding hp hb he
  exact ⟨p, hp, b, hb, e, he, hearly, hmem, (hbefore (.inl hearly)).2 b.name hmem⟩

-- A comprehension over its own iterator. Nothing else has that name.
def selfComprehension : String :=
  "print([for (x: list in x) -> x])"

set_option maxRecDepth 10000 in
theorem selfComprehension_sees_its_iterator :
    ∃ p, compile selfComprehension = .ok p ∧
      (∃ b ∈ Program.bindings p, ∃ e ∈ b.operands,
        b.name ∈ e.mentions ∧ b.scope.find? b.name = none) ∧
      Outcome.fault? (runStatements 20 p (World.fresh (.captured "") ⟨true, .loopback⟩)) =
        some (.runtimeAt (.undefinedVariable "x") 1) :=
  exists_of_any (by decide +kernel)

end Parlance
