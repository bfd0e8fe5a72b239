import Parlance.Proofs.Syntax
import Parlance.Proofs.Text.Unbroken

namespace Parlance

-- What the tokens of a text have in common: a property of their lines and one of their lexemes.
-- The words that messages have of their own are unbroken and have the second one too.
structure Mark where
  line : Nat → Prop
  text : String → Prop
  words : ∀ {s}, Unbroken s → text s

-- Lines with a property, and any lexemes.
def Mark.lines (P : Nat → Prop) : Mark :=
  ⟨P, fun _ => True, fun _ => trivial⟩

structure Token.Has (M : Mark) (t : Token) : Prop where
  line : M.line t.line
  text : M.text t.lexeme

-- A message that quotes nothing but the token it is about, or a word of its own.
theorem Token.Has.quoted {M : Mark} {t : Token} (h : t.Has M) : ∀ s ∈ [t.lexeme], M.text s :=
  List.forall_mem_singleton.mpr h.text

theorem Mark.word (M : Mark) {s : String} (h : Unbroken s) : ∀ t ∈ [s], M.text t :=
  List.forall_mem_singleton.mpr (M.words h)

namespace Expr

mutual

-- All tokens of an expression, and the keys in it, have what they have in common. Failures are
-- placed at the lines of these tokens and quote their lexemes.
def Marked (M : Mark) : Expr → Prop
  | constant token => token.Has M
  | name token _ => token.Has M
  | access target index => target.Marked M ∧ index.Marked M
  | slice target start stop => target.Marked M ∧ MarkedOption M start ∧ MarkedOption M stop
  | logical op left right => op.Has M ∧ left.Marked M ∧ right.Marked M
  | relational op left right => op.Has M ∧ left.Marked M ∧ right.Marked M
  | arithmetic op left right => op.Has M ∧ left.Marked M ∧ right.Marked M
  | unary op operand => op.Has M ∧ operand.Marked M
  | call callee _ args => callee.Has M ∧ MarkedAll M args
  | method receiver operation args =>
    receiver.Marked M ∧ operation.Has M ∧ MarkedAll M args
  | array bracket items => bracket.Has M ∧ MarkedAll M items
  | dict brace entries => brace.Has M ∧ MarkedEntries M entries
  | assign equal target value => equal.Has M ∧ target.Marked M ∧ value.Marked M
  | comprehension bracket iterator _ init iterable projection =>
    bracket.Has M ∧ iterator.Has M ∧ MarkedOption M init ∧ iterable.Marked M ∧
      projection.Marked M

def MarkedAll (M : Mark) : List Expr → Prop
  | [] => True
  | e :: rest => e.Marked M ∧ MarkedAll M rest

def MarkedEntries (M : Mark) : List (String × Expr) → Prop
  | [] => True
  | (key, e) :: rest => M.text key ∧ e.Marked M ∧ MarkedEntries M rest

def MarkedOption (M : Mark) : Option Expr → Prop
  | none => True
  | some e => e.Marked M

end

variable {M : Mark}

theorem markedAll_iff {es : List Expr} : MarkedAll M es ↔ ∀ e ∈ es, e.Marked M := by
  induction es with
  | nil => simp [MarkedAll]
  | cons e rest ih => simp [MarkedAll, ih]

theorem markedEntries_iff {es : List (String × Expr)} :
    MarkedEntries M es ↔ ∀ e ∈ es, M.text e.1 ∧ e.2.Marked M := by
  induction es with
  | nil => simp [MarkedEntries]
  | cons e rest ih => simp [MarkedEntries, ih, and_assoc]

theorem markedOption_iff {o : Option Expr} : MarkedOption M o ↔ ∀ e ∈ o, e.Marked M := by
  cases o <;> simp [MarkedOption]

-- An element of a collection has its token from the collection.
theorem Marked.token {e : Expr} (h : e.Marked M) : e.token.Has M := by
  fun_induction Expr.token e with
  | case3 target index ih | case4 target start stop ih =>
    rw [Marked] at h
    exact ih h.1
  | case10 receiver operation args =>
    rw [Marked] at h
    exact h.2.1
  | case1 | case2 => rwa [Marked] at h
  | _ =>
    rw [Marked] at h
    exact h.1

theorem Marked.of_mem_places {target x : Expr} (h : target.Marked M) (hx : x ∈ target.places) :
    x.Marked M := by
  cases target with
  | access container index =>
    rw [Marked] at h
    simp only [places, List.mem_cons, List.not_mem_nil, or_false] at hx
    rcases hx with rfl | rfl
    · exact h.1
    · exact h.2
  | _ => cases hx

theorem Marked.of_mem_operands {e x : Expr} (h : e.Marked M) (hx : x ∈ e.operands) :
    x.Marked M := by
  cases e with
  | constant | name => cases hx
  | assign equal target value =>
    rw [Marked] at h
    rcases List.mem_cons.mp hx with rfl | hx
    · exact h.2.2
    · exact h.2.1.of_mem_places hx
  | dict brace entries =>
    rw [Marked, markedEntries_iff] at h
    obtain ⟨entry, hentry, rfl⟩ := List.mem_map.mp hx
    exact (h.2 entry hentry).2
  | _ =>
    simp only [operands, List.mem_cons, List.mem_append, List.not_mem_nil, or_false,
      Option.mem_toList] at hx
    simp only [Marked, markedAll_iff, markedOption_iff] at h
    grind

end Expr

-- The tokens of a declaration. The first value of an iterator is never evaluated, but its type
-- is looked at.
def Declaration.Marked (M : Mark) (d : Declaration) : Prop :=
  d.name.Has M ∧ ∀ e ∈ d.init, e.Marked M

def Param.Marked (M : Mark) (p : Param) : Prop :=
  M.text p.name ∧ ∀ e ∈ p.default, e.Marked M

namespace Stmt

mutual

-- All tokens of a statement have what they have in common.
def Marked (M : Mark) : Stmt → Prop
  | expression e => e.Marked M
  | declaration d => d.Marked M
  | function name _ params body line =>
    M.line line ∧ M.text name ∧ (∀ p ∈ params, p.Marked M) ∧ MarkedAll M body
  | ret value line => M.line line ∧ ∀ e ∈ value, e.Marked M
  | branch condition yes no => condition.Marked M ∧ MarkedAll M yes ∧ MarkedOption M no
  | loop condition body => condition.Marked M ∧ MarkedAll M body
  | each iterator iterable body => iterator.Marked M ∧ iterable.Marked M ∧ MarkedAll M body
  | brk line => M.line line
  | cont line => M.line line
  | par body line => M.line line ∧ MarkedAll M body
  | seq body => MarkedAll M body
  | client _ host port line => M.line line ∧ host.Marked M ∧ port.Marked M
  | server _ handler description host port line =>
    M.line line ∧ handler.Has M ∧ description.Marked M ∧ host.Marked M ∧ port.Marked M

def MarkedAll (M : Mark) : List Stmt → Prop
  | [] => True
  | s :: rest => s.Marked M ∧ MarkedAll M rest

def MarkedOption (M : Mark) : Option (List Stmt) → Prop
  | none => True
  | some body => MarkedAll M body

end

variable {M : Mark}

theorem markedAll_iff {body : List Stmt} : MarkedAll M body ↔ ∀ s ∈ body, s.Marked M := by
  induction body with
  | nil => simp [MarkedAll]
  | cons s rest ih => simp [MarkedAll, ih]

theorem markedOption_iff {o : Option (List Stmt)} :
    MarkedOption M o ↔ ∀ body ∈ o, MarkedAll M body := by
  cases o <;> simp [MarkedOption]

theorem Marked.of_mem_lines {s : Stmt} (h : s.Marked M) : ∀ line ∈ s.lines, M.line line := by
  intro line hline
  cases s with
  | each iterator iterable body =>
    rw [Marked] at h
    cases List.mem_singleton.mp hline
    exact h.1.1.line
  | par | client | server =>
    rw [Marked] at h
    cases List.mem_singleton.mp hline
    exact h.1
  | _ => cases hline

theorem Marked.of_mem_bodies {s t : Stmt} {body : List Stmt} (h : s.Marked M)
    (hbody : body ∈ s.bodies) (ht : t ∈ body) : t.Marked M := by
  cases s with
  | branch condition yes no =>
    simp only [Marked, markedOption_iff, markedAll_iff] at h
    rcases List.mem_cons.mp hbody with rfl | hno
    · exact h.2.1 t ht
    · exact h.2.2 body (Option.mem_toList.mp hno) t ht
  | function | loop | each | par | seq =>
    simp only [Marked, markedAll_iff] at h
    cases List.mem_singleton.mp hbody
    grind
  | _ => cases hbody

theorem Marked.of_mem_operands {s : Stmt} {e : Expr} (h : s.Marked M) (he : e ∈ s.operands) :
    e.Marked M := by
  cases s with
  | par body line =>
    have hworker := h.of_mem_bodies List.mem_cons_self (Eval.mem_of_mem_workers he)
    rwa [Marked] at hworker
  | declaration d =>
    rw [Marked] at h
    exact h.2 e (Option.mem_toList.mp he)
  | function | brk | cont | seq => cases he
  | _ =>
    simp only [operands, List.mem_cons, List.not_mem_nil, or_false, Option.mem_toList] at he
    simp only [Marked] at h
    grind

end Stmt

end Parlance
