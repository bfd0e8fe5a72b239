import Parlance.Eval.Stmt

namespace Parlance

namespace Expr

-- The name of the function that a call is for.
def callName? : Expr → Option String
  | call callee _ _ => some callee.lexeme
  | method _ operation _ => some operation.lexeme
  | _ => none

-- What is evaluated to find the place that an assignment stores its value in.
def places : Expr → List Expr
  | access container index => [container, index]
  | _ => []

-- What is evaluated for an expression in the frame of the expression itself.
def operands : Expr → List Expr
  | constant _ => []
  | name _ _ => []
  | access target index => [target, index]
  | slice target start stop => target :: (start.toList ++ stop.toList)
  | logical _ left right => [left, right]
  | relational _ left right => [left, right]
  | arithmetic _ left right => [left, right]
  | unary _ operand => [operand]
  | call _ _ args => args
  | method receiver _ args => receiver :: args
  | array _ items => items
  | dict _ entries => entries.map Prod.snd
  | assign _ target value => value :: target.places
  | comprehension _ _ _ _ iterable _ => [iterable]

-- What an expression is made of. The first value of an iterator is not part of it: nothing
-- ever looks at that value.
def children : Expr → List Expr
  | assign _ target value => [target, value]
  | comprehension _ _ _ _ iterable projection => [iterable, projection]
  | e => e.operands

mutual

-- An expression and all expressions inside it.
def parts : Expr → List Expr
  | access target index => access target index :: (target.parts ++ index.parts)
  | slice target start stop =>
    slice target start stop :: (target.parts ++ (partsOfOption start ++ partsOfOption stop))
  | logical op left right => logical op left right :: (left.parts ++ right.parts)
  | relational op left right => relational op left right :: (left.parts ++ right.parts)
  | arithmetic op left right => arithmetic op left right :: (left.parts ++ right.parts)
  | unary op operand => unary op operand :: operand.parts
  | call callee ty args => call callee ty args :: partsOf args
  | method receiver operation args =>
    method receiver operation args :: (receiver.parts ++ partsOf args)
  | array bracket items => array bracket items :: partsOf items
  | dict brace entries => dict brace entries :: partsOfEntries entries
  | assign equal target value => assign equal target value :: (target.parts ++ value.parts)
  | comprehension bracket iterator ty init iterable projection =>
    comprehension bracket iterator ty init iterable projection ::
      (iterable.parts ++ projection.parts)
  | e => [e]

def partsOf : List Expr → List Expr
  | [] => []
  | e :: rest => e.parts ++ partsOf rest

def partsOfEntries : List (String × Expr) → List Expr
  | [] => []
  | (_, e) :: rest => e.parts ++ partsOfEntries rest

def partsOfOption : Option Expr → List Expr
  | none => []
  | some e => e.parts

end

mutual

-- The variables that an expression reads or assigns, other than the iterators of its own
-- comprehensions.
def free : Expr → List String
  | constant _ => []
  | name token _ => [token.lexeme]
  | access target index => target.free ++ index.free
  | slice target start stop => target.free ++ (freeOfOption start ++ freeOfOption stop)
  | logical _ left right => left.free ++ right.free
  | relational _ left right => left.free ++ right.free
  | arithmetic _ left right => left.free ++ right.free
  | unary _ operand => operand.free
  | call _ _ args => freeOf args
  | method receiver _ args => receiver.free ++ freeOf args
  | array _ items => freeOf items
  | dict _ entries => freeOfEntries entries
  | assign _ target value => target.free ++ value.free
  | comprehension _ iterator _ _ iterable projection =>
    iterable.free ++ projection.free.filter (· != iterator.lexeme)

def freeOf : List Expr → List String
  | [] => []
  | e :: rest => e.free ++ freeOf rest

def freeOfEntries : List (String × Expr) → List String
  | [] => []
  | (_, e) :: rest => e.free ++ freeOfEntries rest

def freeOfOption : Option Expr → List String
  | none => []
  | some e => e.free

end

theorem mem_partsOf {t : Expr} {es : List Expr} : t ∈ partsOf es ↔ ∃ e ∈ es, t ∈ e.parts := by
  induction es with
  | nil => simp [partsOf]
  | cons e es ih => simp [partsOf, ih]

theorem mem_partsOfEntries {t : Expr} {es : List (String × Expr)} :
    t ∈ partsOfEntries es ↔ ∃ e ∈ es.map Prod.snd, t ∈ e.parts := by
  induction es with
  | nil => simp [partsOfEntries]
  | cons e es ih =>
    simp only [partsOfEntries, List.mem_append, ih, List.map_cons, List.mem_cons, or_and_right,
      exists_or, exists_eq_left]

theorem mem_partsOfOption {t : Expr} {o : Option Expr} :
    t ∈ partsOfOption o ↔ ∃ e ∈ o, t ∈ e.parts := by
  cases o <;> simp [partsOfOption]

theorem mem_freeOf {x : String} {es : List Expr} : x ∈ freeOf es ↔ ∃ e ∈ es, x ∈ e.free := by
  induction es with
  | nil => simp [freeOf]
  | cons e es ih => simp [freeOf, ih]

theorem mem_freeOfEntries {x : String} {es : List (String × Expr)} :
    x ∈ freeOfEntries es ↔ ∃ e ∈ es.map Prod.snd, x ∈ e.free := by
  induction es with
  | nil => simp [freeOfEntries]
  | cons e es ih =>
    simp only [freeOfEntries, List.mem_append, ih, List.map_cons, List.mem_cons, or_and_right,
      exists_or, exists_eq_left]

theorem mem_freeOfOption {x : String} {o : Option Expr} :
    x ∈ freeOfOption o ↔ ∃ e ∈ o, x ∈ e.free := by
  cases o <;> simp [freeOfOption]

-- The parts of an expression are the expression and the parts of its children.
theorem mem_parts {t e : Expr} : t ∈ e.parts ↔ t = e ∨ ∃ x ∈ e.children, t ∈ x.parts := by
  cases e <;>
    simp [parts, children, operands, mem_partsOf, mem_partsOfEntries, mem_partsOfOption,
      or_and_right, exists_or]

theorem mem_parts_self (e : Expr) : e ∈ e.parts :=
  mem_parts.mpr (.inl rfl)

theorem parts_subset {x e : Expr} (hx : x ∈ e.children) : ∀ t ∈ x.parts, t ∈ e.parts :=
  fun _ ht => mem_parts.mpr (.inr ⟨x, hx, ht⟩)

-- The operands of an expression are its children, or children of what it assigns to.
theorem mem_children_of_mem_operands {x e : Expr} (hx : x ∈ e.operands) :
    x ∈ e.children ∨ ∃ target ∈ e.children, x ∈ target.children := by
  cases e with
  | assign equal target value =>
    rcases List.mem_cons.mp hx with rfl | hx
    · simp [children]
    · refine .inr ⟨target, List.mem_cons_self, ?_⟩
      cases target with
      | access container index => exact hx
      | _ => cases hx
  | comprehension => exact .inl (List.mem_cons.mpr (.inl (List.mem_singleton.mp hx)))
  | _ => exact .inl hx

theorem parts_subset_of_operand {x e : Expr} (hx : x ∈ e.operands) :
    ∀ t ∈ x.parts, t ∈ e.parts := by
  intro t ht
  rcases mem_children_of_mem_operands hx with hx | ⟨target, htarget, hx⟩
  · exact parts_subset hx t ht
  · exact parts_subset htarget t (parts_subset hx t ht)

theorem free_subset_of_operand {x e : Expr} (hx : x ∈ e.operands) : ∀ y ∈ x.free, y ∈ e.free := by
  intro y hy
  cases e with
  | assign equal target value =>
    rw [free, List.mem_append]
    rcases List.mem_cons.mp hx with rfl | hx
    · exact .inr hy
    · refine .inl ?_
      cases target with
      | access container index =>
        simp only [places, List.mem_cons, List.not_mem_nil, or_false] at hx
        rw [free, List.mem_append]
        rcases hx with rfl | rfl
        · exact .inl hy
        · exact .inr hy
      | _ => cases hx
  | constant | name => cases hx
  | _ =>
    simp only [operands, List.mem_cons, List.mem_append, List.not_mem_nil, or_false,
      Option.mem_toList] at hx
    simp only [free, List.mem_append, mem_freeOf, mem_freeOfEntries, mem_freeOfOption]
    grind

theorem sizeOf_lt_of_mem_children {x e : Expr} (hx : x ∈ e.children) : sizeOf x < sizeOf e := by
  cases e with
  | constant | name => cases hx
  | call callee ty args =>
    have hlt : sizeOf x < sizeOf args := List.sizeOf_lt_of_mem hx
    simp
    omega
  | array bracket items =>
    have hlt : sizeOf x < sizeOf items := List.sizeOf_lt_of_mem hx
    simp
    omega
  | dict brace entries =>
    obtain ⟨entry, hentry, rfl⟩ := List.mem_map.mp hx
    have hlt := List.sizeOf_lt_of_mem hentry
    obtain ⟨key, value⟩ := entry
    simp at hlt ⊢
    omega
  | method receiver operation args =>
    rcases List.mem_cons.mp hx with rfl | hx
    · simp
      omega
    · have hlt := List.sizeOf_lt_of_mem hx
      simp
      omega
  | slice target start stop =>
    simp only [children, operands, List.mem_cons, List.mem_append, Option.mem_toList] at hx
    rcases hx with rfl | hx | hx
    · simp
      omega
    · cases hx
      simp
      omega
    · cases hx
      simp
      omega
  | _ =>
    simp only [children, operands, List.mem_cons, List.not_mem_nil, or_false] at hx
    grind

-- What holds of an expression and passes on to what it is made of holds of all its parts.
theorem of_mem_parts {P : Expr → Prop} (hP : ∀ e, P e → ∀ x ∈ e.children, P x) {e t : Expr}
    (he : P e) (ht : t ∈ e.parts) : P t := by
  induction hsize : sizeOf e using Nat.strongRecOn generalizing e with
  | ind size ih =>
    rcases mem_parts.mp ht with rfl | ⟨x, hx, ht⟩
    · exact he
    · have hlt : sizeOf x < size := hsize ▸ sizeOf_lt_of_mem_children hx
      exact ih (sizeOf x) hlt (hP e he x hx) ht rfl

theorem sizeOf_lt_of_mem_operands {x e : Expr} (hx : x ∈ e.operands) : sizeOf x < sizeOf e := by
  rcases mem_children_of_mem_operands hx with hx | ⟨target, htarget, hx⟩
  · exact sizeOf_lt_of_mem_children hx
  · exact Nat.lt_trans (sizeOf_lt_of_mem_children hx) (sizeOf_lt_of_mem_children htarget)

end Expr

theorem Eval.mem_of_mem_workers {body : List Stmt} {e : Expr} (h : e ∈ Eval.workers body) :
    Stmt.expression e ∈ body := by
  obtain ⟨s, hs, he⟩ := List.mem_filterMap.mp h
  cases s <;> simp at he
  exact he ▸ hs

namespace Stmt

-- What is evaluated for a statement in the frame of the statement itself.
def operands : Stmt → List Expr
  | expression e => [e]
  | declaration d => d.init.toList
  | function _ _ _ _ _ => []
  | ret value _ => value.toList
  | branch condition _ _ => [condition]
  | loop condition _ => [condition]
  | each _ iterable _ => [iterable]
  | brk _ => []
  | cont _ => []
  | par body _ => Eval.workers body
  | seq _ => []
  | client _ host port _ => [host, port]
  | server _ _ description host port _ => [description, host, port]

-- The blocks of a statement, which run in frames of their own. The bodies of functions run
-- when they are called, and those of parallel blocks have no frame.
def blocks : Stmt → List (List Stmt)
  | branch _ yes no => yes :: no.toList
  | loop _ body => [body]
  | each _ _ body => [body]
  | seq body => [body]
  | _ => []

-- The variable that a statement adds to its frame.
def introduces : Stmt → Option String
  | declaration d => some d.name.lexeme
  | client name _ _ _ => some name
  | server name _ _ _ _ _ => some name
  | _ => none

-- The name that a statement gives to the items of a collection.
def iterator? : Stmt → Option String
  | each d _ _ => some d.name.lexeme
  | _ => none

-- The lines at which a statement places failures itself.
def lines : Stmt → List Nat
  | each d _ _ => [d.name.line]
  | par _ line => [line]
  | client _ _ _ line => [line]
  | server _ _ _ _ _ line => [line]
  | _ => []

def isFunction : Stmt → Bool
  | function _ _ _ _ _ => true
  | _ => false

def isLoop : Stmt → Bool
  | loop _ _ => true
  | _ => false

def isEach : Stmt → Bool
  | each _ _ _ => true
  | _ => false

def isSeq : Stmt → Bool
  | seq _ => true
  | _ => false

-- The expressions of a statement itself. Those of a parallel block are in its body.
def expressions : Stmt → List Expr
  | function _ _ params _ _ => params.filterMap Param.default
  | par _ _ => []
  | s => s.operands

-- Everything that a statement contains blocks of, the bodies of functions and of parallel
-- blocks among them.
def bodies : Stmt → List (List Stmt)
  | function _ _ _ body _ => [body]
  | par body _ => [body]
  | s => s.blocks

mutual

-- A statement and all statements inside it.
def parts : Stmt → List Stmt
  | function name returns params body line =>
    function name returns params body line :: partsOf body
  | branch condition yes no => branch condition yes no :: (partsOf yes ++ partsOfOption no)
  | loop condition body => loop condition body :: partsOf body
  | each iterator iterable body => each iterator iterable body :: partsOf body
  | par body line => par body line :: partsOf body
  | seq body => seq body :: partsOf body
  | s => [s]

def partsOf : List Stmt → List Stmt
  | [] => []
  | s :: rest => s.parts ++ partsOf rest

def partsOfOption : Option (List Stmt) → List Stmt
  | none => []
  | some body => partsOf body

end

theorem mem_partsOf {t : Stmt} {body : List Stmt} :
    t ∈ partsOf body ↔ ∃ s ∈ body, t ∈ s.parts := by
  induction body with
  | nil => simp [partsOf]
  | cons s rest ih => simp [partsOf, ih]

theorem mem_parts_self (s : Stmt) : s ∈ s.parts := by
  cases s <;> simp [parts]

-- The parts of a statement are the statement and the parts of what it contains.
theorem mem_parts {t s : Stmt} : t ∈ s.parts ↔ t = s ∨ ∃ body ∈ s.bodies, t ∈ partsOf body := by
  cases s with
  | branch condition yes no => cases no <;> simp [parts, partsOfOption, bodies, blocks]
  | _ => simp [parts, bodies, blocks]

theorem parts_subset {t s : Stmt} {body : List Stmt} (hbody : body ∈ s.bodies) (ht : t ∈ body) :
    ∀ u ∈ t.parts, u ∈ s.parts :=
  fun _ hu => mem_parts.mpr (.inr ⟨body, hbody, mem_partsOf.mpr ⟨t, ht, hu⟩⟩)

-- What is evaluated for a statement stands in it, or in a worker of it.
theorem exists_part_of_mem_operands {s : Stmt} {e : Expr} (he : e ∈ s.operands) :
    ∃ t ∈ s.parts, e ∈ t.expressions := by
  cases s with
  | function => cases he
  | par body line =>
    have hworker : Stmt.expression e ∈ (Stmt.par body line).parts :=
      parts_subset (List.mem_singleton.mpr rfl) (Eval.mem_of_mem_workers he) _ (mem_parts_self _)
    exact ⟨_, hworker, List.mem_singleton.mpr rfl⟩
  | _ => exact ⟨_, mem_parts_self _, he⟩

theorem sizeOf_lt_of_mem_bodies {t s : Stmt} {body : List Stmt} (hbody : body ∈ s.bodies)
    (ht : t ∈ body) : sizeOf t < sizeOf s := by
  have hlt := List.sizeOf_lt_of_mem ht
  cases s with
  | function | loop | each | par | seq =>
    cases List.mem_singleton.mp hbody
    simp
    omega
  | branch condition yes no =>
    rcases List.mem_cons.mp hbody with rfl | hno
    · simp
      omega
    · cases Option.mem_toList.mp hno
      simp
      omega
  | _ => cases hbody

theorem sizeOf_lt_of_mem_operands {s : Stmt} {e : Expr} (he : e ∈ s.operands) :
    sizeOf e < sizeOf s := by
  cases s with
  | declaration d =>
    obtain ⟨name, ty, init⟩ := d
    cases Option.mem_toList.mp he
    simp
    omega
  | ret value line =>
    cases Option.mem_toList.mp he
    simp
    omega
  | par body line =>
    have hlt := List.sizeOf_lt_of_mem (Eval.mem_of_mem_workers he)
    simp at hlt ⊢
    omega
  | function | brk | cont | seq => cases he
  | _ =>
    simp only [operands, List.mem_cons, List.not_mem_nil, or_false] at he
    grind

-- What holds of a statement and passes on to what it contains holds of all its parts.
theorem of_mem_parts {P : Stmt → Prop}
    (hP : ∀ s, P s → ∀ body ∈ s.bodies, ∀ t ∈ body, P t) {s t : Stmt} (hs : P s)
    (ht : t ∈ s.parts) : P t := by
  induction hsize : sizeOf s using Nat.strongRecOn generalizing s with
  | ind size ih =>
    rcases mem_parts.mp ht with rfl | ⟨body, hbody, ht⟩
    · exact hs
    · obtain ⟨u, hu, ht⟩ := mem_partsOf.mp ht
      have hlt : sizeOf u < size := hsize ▸ sizeOf_lt_of_mem_bodies hbody hu
      exact ih (sizeOf u) hlt (hP s hs body hbody u hu) ht rfl

theorem parts_trans {s t u : Stmt} (ht : t ∈ s.parts) (hu : u ∈ t.parts) : u ∈ s.parts :=
  of_mem_parts (P := fun t => ∀ u ∈ t.parts, u ∈ s.parts)
    (fun _ h _ hbody _ hmem u hu => h u (parts_subset hbody hmem u hu)) (fun _ h => h) ht u hu

theorem mem_bodies_of_mem_blocks {s : Stmt} {body : List Stmt} (h : body ∈ s.blocks) :
    body ∈ s.bodies := by
  cases s with
  | function | par => simp [blocks] at h
  | _ => exact h

end Stmt

-- The statement that defines a function.
def Function.definition (f : Function) : Stmt :=
  .function f.name f.returns f.params f.body f.line

theorem Function.sizeOf_lt_of_default {f : Function} {p : Param} {e : Expr} (hp : p ∈ f.params)
    (he : p.default = some e) : sizeOf e < sizeOf f.definition := by
  have hlt := List.sizeOf_lt_of_mem hp
  have hparam : sizeOf e < sizeOf p := by
    obtain ⟨name, ty, default⟩ := p
    cases he
    simp
    omega
  simp [definition]
  omega

def Function.HasParam (f : Function) (x : String) : Prop :=
  ∃ p ∈ f.params, p.name = x

-- All statements of a program.
def Program.parts (p : Program) : List Stmt :=
  Stmt.partsOf p

-- All expressions of a program.
def Program.expressions (p : Program) : List Expr :=
  (Program.parts p).flatMap fun s => s.expressions.flatMap Expr.parts

theorem Program.mem_expressions {p : Program} {s : Stmt} {e x : Expr} (hs : s ∈ Program.parts p)
    (he : e ∈ s.expressions) (hx : x ∈ e.parts) : x ∈ Program.expressions p :=
  List.mem_flatMap.mpr ⟨s, hs, List.mem_flatMap.mpr ⟨e, he, hx⟩⟩

-- All functions are defined outside of all blocks.
def Program.Flat (p : Program) : Prop :=
  ∀ s ∈ p, ∀ body ∈ s.bodies, ∀ t ∈ Stmt.partsOf body, t.isFunction = false

instance (p : Program) : Decidable (Program.Flat p) :=
  inferInstanceAs (Decidable (∀ s ∈ p, ∀ body ∈ s.bodies, ∀ t ∈ Stmt.partsOf body, _ = false))

end Parlance
