import Parlance.Proofs.ControlFlow
import Parlance.Proofs.Scoping

namespace Parlance

namespace Scope

-- A name that stands for a variable, not for a function.
def IsVariable (σ : Scope) (x : String) : Prop :=
  ∃ ty, σ.find? x = some ty ∧ ty ≠ .func

theorem find?_insert? {σ τ : Scope} {name : String} {ty : Ty} (h : σ.insert? name ty = some τ)
    (x : String) : τ.find? x = if x = name then some ty else σ.find? x := by
  unfold insert? at h
  split at h
  · cases h
  · cases h
    simp only [find?, layers, List.findSome?_cons, List.lookup_cons]
    by_cases hx : x = name
    · simp [hx]
    · have hbeq : (x == name) = false := beq_false_of_ne hx
      simp [hx, hbeq]

theorem mem_of_find?_root {x : String} {ty : Ty} (h : root.find? x = some ty) :
    (x, ty) ∈ signatures.map fun s => (s.1, Ty.func) := by
  simp only [find?, layers, root, List.findSome?_cons, List.findSome?_nil] at h
  cases hlookup : (signatures.map fun s => (s.1, Ty.func)).lookup x with
  | none =>
    rw [hlookup] at h
    cases h
  | some found =>
    rw [hlookup] at h
    cases h
    obtain ⟨before, after, heq, _⟩ := List.lookup_eq_some_iff.mp hlookup
    exact heq ▸ List.mem_append_right before List.mem_cons_self

theorem not_isVariable_root {x : String} : ¬ root.IsVariable x := by
  rintro ⟨ty, hfind, hne⟩
  obtain ⟨s, _, hs⟩ := List.mem_map.mp (mem_of_find?_root hfind)
  cases hs
  exact hne rfl

theorem isVariable_of_insert? {σ τ : Scope} {name x : String} {ty : Ty}
    (h : σ.insert? name ty = some τ) (hx : τ.IsVariable x) :
    x = name ∧ ty ≠ .func ∨ σ.IsVariable x := by
  obtain ⟨found, hfound, hne⟩ := hx
  rw [find?_insert? h] at hfound
  split at hfound
  · next heq =>
    cases hfound
    exact .inl ⟨heq, hne⟩
  · exact .inr ⟨found, hfound, hne⟩

theorem isVariable_of_insertAll {σ : Scope} {layer : Layer} {x : String}
    (hx : (σ.insertAll layer).IsVariable x) : x ∈ layer.map Prod.fst ∨ σ.IsVariable x := by
  induction layer generalizing σ with
  | nil => exact .inr hx
  | cons entry layer ih =>
    rw [List.map_cons, List.mem_cons]
    rcases ih hx with h | h
    · exact .inl (.inr h)
    · cases hinsert : σ.insert? entry.1 entry.2 with
      | none =>
        rw [hinsert] at h
        exact .inr h
      | some τ =>
        rw [hinsert] at h
        rcases isVariable_of_insert? hinsert h with h | h
        · exact .inl (.inl h.1)
        · exact .inr h

end Scope

namespace Expr

-- A comprehension that runs over something in which its own iterator is used.
def usesOwnName : Expr → Bool
  | comprehension _ iterator _ _ iterable _ => iterable.free.contains iterator.lexeme
  | _ => false

-- A name of a function, where a value is wanted.
def isFunctionName : Expr → Bool
  | name _ ty => ty == .func
  | _ => false

-- Expressions in which no function is used as a value, and no iterator before it has one.
def Plain (e : Expr) : Prop :=
  ∀ x ∈ e.parts, x.usesOwnName = false ∧ x.isFunctionName = false

theorem Plain.child {e x : Expr} (h : e.Plain) (hx : x ∈ e.children) : x.Plain :=
  fun t ht => h t (parts_subset hx t ht)

-- The names that a scoped expression uses are those of variables.
theorem Scoped.isVariable_of_free {σ : Scope} {e : Expr} (h : e.Scoped σ) (hplain : e.Plain) :
    ∀ x ∈ e.free, σ.IsVariable x := by
  induction h with
  | constant token => simp [free]
  | @name σ token ty hfind =>
    intro x hx
    cases List.mem_singleton.mp hx
    have hty := (hplain _ (mem_parts_self _)).2
    exact ⟨ty, hfind, by simpa [isFunctionName] using hty⟩
  | access _ _ ihtarget ihindex =>
    intro x hx
    rcases List.mem_append.mp hx with hx | hx
    · exact ihtarget (hplain.child (by simp [children, operands])) x hx
    · exact ihindex (hplain.child (by simp [children, operands])) x hx
  | slice _ _ _ ihtarget ihstart ihstop =>
    intro x hx
    rw [free, List.mem_append, List.mem_append, mem_freeOfOption, mem_freeOfOption] at hx
    rcases hx with hx | ⟨e, he, hx⟩ | ⟨e, he, hx⟩
    · exact ihtarget (hplain.child (by simp [children, operands])) x hx
    · exact ihstart e he (hplain.child (by simp [children, operands, Option.mem_def.mp he])) x hx
    · exact ihstop e he (hplain.child (by simp [children, operands, Option.mem_def.mp he])) x hx
  | logical _ _ _ ihleft ihright | relational _ _ _ ihleft ihright
  | arithmetic _ _ _ ihleft ihright =>
    intro x hx
    rcases List.mem_append.mp hx with hx | hx
    · exact ihleft (hplain.child (by simp [children, operands])) x hx
    · exact ihright (hplain.child (by simp [children, operands])) x hx
  | unary _ _ ih => exact ih (hplain.child (by simp [children, operands]))
  | call _ _ ih =>
    intro x hx
    obtain ⟨e, he, hx⟩ := mem_freeOf.mp hx
    exact ih e he (hplain.child he) x hx
  | method _ _ _ ihreceiver ihargs =>
    intro x hx
    rcases List.mem_append.mp hx with hx | hx
    · exact ihreceiver (hplain.child (by simp [children, operands])) x hx
    · obtain ⟨e, he, hx⟩ := mem_freeOf.mp hx
      exact ihargs e he (hplain.child (List.mem_cons_of_mem _ he)) x hx
  | array _ _ ih =>
    intro x hx
    obtain ⟨e, he, hx⟩ := mem_freeOf.mp hx
    exact ih e he (hplain.child he) x hx
  | dict _ _ ih =>
    intro x hx
    obtain ⟨e, he, hx⟩ := mem_freeOfEntries.mp hx
    obtain ⟨entry, hentry, rfl⟩ := List.mem_map.mp he
    exact ih entry hentry (hplain.child he) x hx
  | assign _ _ _ ihtarget ihvalue =>
    intro x hx
    rcases List.mem_append.mp hx with hx | hx
    · exact ihtarget (hplain.child (by simp [children])) x hx
    · exact ihvalue (hplain.child (by simp [children])) x hx
  | @comprehension σ τ iterator ty initial iterable projection bracket _ hiterator _ _ _ ihiterable
      ihprojection =>
    have hown := (hplain _ (mem_parts_self _)).1
    simp only [usesOwnName, List.contains_eq_mem, decide_eq_false_iff_not] at hown
    intro x hx
    rw [free, List.mem_append, List.mem_filter, bne_iff_ne] at hx
    have hcases : τ.IsVariable x ∧ x ≠ iterator.lexeme := by
      rcases hx with hx | ⟨hx, hne⟩
      · refine ⟨ihiterable (hplain.child (by simp [children])) x hx, ?_⟩
        rintro rfl
        exact hown hx
      · exact ⟨ihprojection (hplain.child (by simp [children])) x hx, hne⟩
    rcases Scope.isVariable_of_insert? hiterator hcases.1 with h | h
    · exact absurd h.1 hcases.2
    · exact h

end Expr

namespace Stmt

-- A channel in whose operands its own name is used.
def usesOwnName (s : Stmt) : Bool :=
  match s with
  | client name _ _ _ => s.operands.any (·.free.contains name)
  | server name _ _ _ _ _ => s.operands.any (·.free.contains name)
  | _ => false

-- Placed statements whose expressions are plain, and whose channels do not use themselves.
structure Tame (s : Stmt) : Prop where
  placed : ∃ c, Placed c s
  own : ∀ t ∈ s.parts, t.usesOwnName = false
  plain : ∀ t ∈ s.parts, ∀ e ∈ t.expressions, e.Plain

theorem Tame.of_mem_body {s t : Stmt} {body : List Stmt} (h : s.Tame) (hbody : body ∈ s.bodies)
    (ht : t ∈ body) : t.Tame where
  placed := h.placed.elim fun _ hc => hc.of_mem_body hbody ht
  own u hu := h.own u (parts_subset hbody ht u hu)
  plain u hu := h.plain u (parts_subset hbody ht u hu)

-- A scoped statement makes variables out of the names that it introduces only.
theorem Scoped.isVariable {σ τ : Scope} {s : Stmt} {x : String} (h : s.Scoped σ τ)
    (hx : τ.IsVariable x) : s.introduces = some x ∨ σ.IsVariable x := by
  have hinsert : ∀ {name ty}, σ.insert? name ty = some τ → s.introduces = some name →
      s.introduces = some x ∨ σ.IsVariable x := by
    intro name ty hname hintroduces
    rcases Scope.isVariable_of_insert? hname hx with h | h
    · exact .inl (h.1 ▸ hintroduces)
    · exact .inr h
  cases h with
  | declaration _ h => exact hinsert h rfl
  | client _ h => exact hinsert h rfl
  | server _ h => exact hinsert h rfl
  | function _ _ h =>
    rcases Scope.isVariable_of_insert? h hx with h | h
    · exact absurd rfl h.2
    · exact .inr h
  | _ => exact .inr hx

-- The blocks of a scoped statement are scoped, with one more variable if it iterates.
theorem Scoped.of_mem_blocks {σ τ : Scope} {s : Stmt} {body : List Stmt} (h : s.Scoped σ τ)
    (hbody : body ∈ s.blocks) :
    ∃ ρ, Block.Scoped ρ body ∧ ∀ x, ρ.IsVariable x → s.iterator? = some x ∨ σ.IsVariable x := by
  cases h with
  | branch _ hyes hno =>
    rcases List.mem_cons.mp hbody with rfl | hbody
    · exact ⟨σ.push, hyes, fun _ => .inr⟩
    · exact ⟨σ.push, hno body (Option.mem_toList.mp hbody), fun _ => .inr⟩
  | loop _ h =>
    cases List.mem_singleton.mp hbody
    exact ⟨σ.push, h, fun _ => .inr⟩
  | seq h =>
    cases List.mem_singleton.mp hbody
    exact ⟨σ.push, h, fun _ => .inr⟩
  | each _ _ h =>
    cases List.mem_singleton.mp hbody
    refine ⟨_, h, fun x hx => ?_⟩
    rcases Scope.isVariable_of_insertAll hx with hx | hx
    · exact .inl (congrArg some (List.mem_singleton.mp hx).symm)
    · exact .inr hx
  | _ => cases hbody

end Stmt

-- The expressions of a parallel block see what is visible around the block.
theorem Block.Scoped.workers {σ : Scope} {body : List Stmt} (h : Block.Scoped σ body)
    (hbody : body.all Stmt.isExpression = true) : ∀ e ∈ Eval.workers body, e.Scoped σ := by
  induction body with
  | nil => simp [Eval.workers]
  | cons s rest ih =>
    rw [List.all_cons, Bool.and_eq_true] at hbody
    cases h with
    | cons head tail =>
      cases head with
      | expression he =>
        intro e hmem
        rcases List.mem_cons.mp hmem with rfl | hmem
        · exact he
        · exact ih tail hbody.2 e hmem
      | _ => cases hbody.1

-- The operands of a scoped statement use variables that are there before the statement.
theorem Stmt.Scoped.isVariable_of_operand {σ τ : Scope} {s : Stmt} (h : s.Scoped σ τ)
    (htame : s.Tame) {e : Expr} (he : e ∈ s.operands) : ∀ x ∈ e.free, σ.IsVariable x := by
  obtain ⟨t, ht, hmem⟩ := Stmt.exists_part_of_mem_operands he
  have hplain := htame.plain t ht e hmem
  -- The operands of a channel are scoped after it has been declared.
  have hchannel : ∀ {name ty}, σ.insert? name ty = some τ → e.Scoped τ →
      s.operands.any (·.free.contains name) = false → ∀ x ∈ e.free, σ.IsVariable x := by
    intro name ty hname hscoped hown x hx
    have hnot := List.any_eq_false.mp hown e he
    rcases Scope.isVariable_of_insert? hname (hscoped.isVariable_of_free hplain x hx) with h | h
    · refine absurd ?_ hnot
      simpa [← h.1] using hx
    · exact h
  cases h with
  | expression h =>
    cases List.mem_singleton.mp he
    exact h.isVariable_of_free hplain
  | declaration hinit _ =>
    exact (hinit e (Option.mem_toList.mp he)).isVariable_of_free hplain
  | ret _ h => exact (h e (Option.mem_toList.mp he)).isVariable_of_free hplain
  | branch h _ _ =>
    cases List.mem_singleton.mp he
    exact h.isVariable_of_free hplain
  | loop h _ =>
    cases List.mem_singleton.mp he
    exact h.isVariable_of_free hplain
  | each _ h _ =>
    cases List.mem_singleton.mp he
    exact h.isVariable_of_free hplain
  | @par _ body line hbody =>
    obtain ⟨c, hplaced⟩ := htame.placed
    cases hplaced with
    | par _ hall =>
      exact (hbody.workers hall e he).isVariable_of_free hplain
  | client _ h hhost hport =>
    refine hchannel h ?_ (htame.own _ (Stmt.mem_parts_self _))
    simp only [operands, List.mem_cons, List.not_mem_nil, or_false] at he
    rcases he with rfl | rfl
    · exact hhost
    · exact hport
  | server _ h _ hdescription hhost hport =>
    refine hchannel h ?_ (htame.own _ (Stmt.mem_parts_self _))
    simp only [operands, List.mem_cons, List.not_mem_nil, or_false] at he
    rcases he with rfl | rfl | rfl
    · exact hdescription
    · exact hhost
    · exact hport
  | _ => cases he

namespace Program

-- Nothing is used in what it is itself made from.
def NoOwnNames (p : Program) : Prop :=
  (∀ s ∈ parts p, s.usesOwnName = false) ∧ ∀ e ∈ expressions p, e.usesOwnName = false

-- Functions are called, or handle what is sent to a server, but are no values.
def OnlyCalls (p : Program) : Prop :=
  ∀ e ∈ expressions p, e.isFunctionName = false

instance (p : Program) : Decidable (NoOwnNames p) :=
  inferInstanceAs (Decidable ((∀ s ∈ _, _ = false) ∧ ∀ e ∈ _, _ = false))

instance (p : Program) : Decidable (OnlyCalls p) :=
  inferInstanceAs (Decidable (∀ e ∈ expressions p, _ = false))

theorem tame {source : String} {p : Program} (hp : compile source = .ok p)
    (hown : NoOwnNames p) (hcalls : OnlyCalls p) {s : Stmt} (hs : s ∈ p) : s.Tame := by
  have hparts : ∀ t ∈ s.parts, t ∈ parts p := fun t ht => Stmt.mem_partsOf.mpr ⟨s, hs, ht⟩
  refine ⟨⟨.top, placed_of_compile hp s hs⟩, fun t ht => hown.1 t (hparts t ht), ?_⟩
  intro t ht e he x hx
  have hmem := mem_expressions (hparts t ht) he hx
  exact ⟨hown.2 x hmem, hcalls x hmem⟩

end Program

end Parlance
