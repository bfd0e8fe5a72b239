import Mathlib.Data.Nat.SuccPred
import Parlance.Proofs.Printing.RoundTrip
import Parlance.Proofs.Syntax

namespace Parlance

namespace Expr

-- The expressions one level of nesting below another one: operands of unary operators, values
-- that are assigned, arguments, indices and bounds of slices, what lists and dictionaries are
-- made of, and what a comprehension runs over and maps to.
def inner : Expr → List Expr
  | access _ index => [index]
  | slice _ start stop => start.toList ++ stop.toList
  | unary _ operand => [operand]
  | call _ _ args => args
  | method _ _ args => args
  | array _ items => items
  | dict _ entries => entries.map Prod.snd
  | assign _ _ value => [value]
  | comprehension _ _ _ _ iterable projection => [iterable, projection]
  | _ => []

-- The other expressions in an expression, on the level of the expression itself.
def beside : Expr → List Expr
  | access target _ => [target]
  | slice target _ _ => [target]
  | logical _ left right => [left, right]
  | relational _ left right => [left, right]
  | arithmetic _ left right => [left, right]
  | method receiver _ _ => [receiver]
  | assign _ target _ => [target]
  | comprehension _ _ _ init _ _ => init.toList
  | _ => []

mutual

-- The number of levels that an expression takes, its own among them.
def levels : Expr → Nat
  | constant _ => 1
  | name _ _ => 1
  | access target index => max target.levels (index.levels + 1)
  | slice target start stop =>
    max target.levels (max (levelsOfOption start) (levelsOfOption stop) + 1)
  | logical _ left right => max left.levels right.levels
  | relational _ left right => max left.levels right.levels
  | arithmetic _ left right => max left.levels right.levels
  | unary _ operand => operand.levels + 1
  | call _ _ args => levelsOf args + 1
  | method receiver _ args => max receiver.levels (levelsOf args + 1)
  | array _ items => levelsOf items + 1
  | dict _ entries => levelsOfEntries entries + 1
  | assign _ target value => max target.levels (value.levels + 1)
  | comprehension _ _ _ init iterable projection =>
    max (levelsOfOption init) (max iterable.levels projection.levels + 1)

def levelsOf : List Expr → Nat
  | [] => 0
  | e :: rest => max e.levels (levelsOf rest)

def levelsOfEntries : List (String × Expr) → Nat
  | [] => 0
  | (_, e) :: rest => max e.levels (levelsOfEntries rest)

def levelsOfOption : Option Expr → Nat
  | none => 0
  | some e => e.levels

end

theorem levelsOf_le_iff {es : List Expr} {n : Nat} :
    levelsOf es ≤ n ↔ ∀ e ∈ es, e.levels ≤ n := by
  induction es with
  | nil => simp [levelsOf]
  | cons e es ih => simp [levelsOf, ih]

theorem levelsOfEntries_le_iff {es : List (String × Expr)} {n : Nat} :
    levelsOfEntries es ≤ n ↔ ∀ e ∈ es.map Prod.snd, e.levels ≤ n := by
  induction es with
  | nil => simp [levelsOfEntries]
  | cons e es ih => simp only [levelsOfEntries, Nat.max_le, ih, List.map_cons, List.forall_mem_cons]

theorem levelsOfOption_le_iff {o : Option Expr} {n : Nat} :
    levelsOfOption o ≤ n ↔ ∀ e ∈ o, e.levels ≤ n := by
  cases o <;> simp [levelsOfOption]

theorem levels_pos : (e : Expr) → 0 < e.levels
  | constant _ | name _ _ => Nat.one_pos
  | access target _ | slice target _ _ | method target _ _ | assign _ target _ => by
    rw [levels]
    exact Nat.lt_of_lt_of_le target.levels_pos (Nat.le_max_left _ _)
  | logical _ left _ | relational _ left _ | arithmetic _ left _ => by
    rw [levels]
    exact Nat.lt_of_lt_of_le left.levels_pos (Nat.le_max_left _ _)
  | unary _ _ | call _ _ _ | array _ _ | dict _ _ => by
    rw [levels]
    exact Nat.succ_pos _
  | comprehension _ _ _ _ _ _ => by
    rw [levels]
    exact Nat.lt_of_lt_of_le (Nat.succ_pos _) (Nat.le_max_right _ _)
termination_by structural e => e

-- Enough levels for an expression are enough for what is beside it, and one of them is left
-- over for what is nested in it.
theorem levels_le_iff {e : Expr} {n : Nat} :
    e.levels ≤ n + 1 ↔
      (∀ x ∈ e.beside, x.levels ≤ n + 1) ∧ ∀ x ∈ e.inner, x.levels ≤ n := by
  cases e <;>
    simp [levels, beside, inner, levelsOf_le_iff, levelsOfEntries_le_iff,
      levelsOfOption_le_iff, or_imp, forall_and]

theorem levels_beside {x e : Expr} (hx : x ∈ e.beside) : x.levels ≤ e.levels := by
  have hpos := e.levels_pos
  have hle : e.levels ≤ e.levels - 1 + 1 := by omega
  have hbeside := (levels_le_iff.mp hle).1 x hx
  omega

theorem levels_inner {x e : Expr} (hx : x ∈ e.inner) : x.levels < e.levels := by
  have hpos := e.levels_pos
  have hle : e.levels ≤ e.levels - 1 + 1 := by omega
  have hinner := (levels_le_iff.mp hle).2 x hx
  omega

end Expr

namespace Stmt

-- The expressions of a statement, on the level of the statement.
def beside : Stmt → List Expr
  | each iterator iterable _ => iterator.init.toList ++ [iterable]
  | s => s.expressions

mutual

-- The number of levels that a statement takes. It needs none for itself, but each block takes
-- one, also if nothing is in it.
def levels : Stmt → Nat
  | function _ _ params body _ =>
    max (Expr.levelsOf (params.filterMap Param.default)) (levelsOf body + 1)
  | branch condition yes no =>
    max condition.levels (max (levelsOf yes + 1) (levelsOfOption no))
  | loop condition body => max condition.levels (levelsOf body + 1)
  | each iterator iterable body =>
    max (max (Expr.levelsOfOption iterator.init) iterable.levels) (levelsOf body + 1)
  | par body _ => levelsOf body + 1
  | seq body => levelsOf body + 1
  | s => Expr.levelsOf s.operands

def levelsOf : List Stmt → Nat
  | [] => 0
  | s :: rest => max s.levels (levelsOf rest)

def levelsOfOption : Option (List Stmt) → Nat
  | none => 0
  | some body => levelsOf body + 1

end

theorem levelsOf_le_iff {body : List Stmt} {n : Nat} :
    levelsOf body ≤ n ↔ ∀ s ∈ body, s.levels ≤ n := by
  induction body with
  | nil => simp [levelsOf]
  | cons s body ih => simp [levelsOf, ih]

theorem levelsOf_lt_iff {body : List Stmt} {n : Nat} :
    levelsOf body < n ↔ 0 < n ∧ ∀ s ∈ body, s.levels < n := by
  cases n with
  | zero => simp
  | succ n => simp [levelsOf_le_iff]

theorem levels_le_iff {s : Stmt} {n : Nat} :
    s.levels ≤ n ↔
      (∀ e ∈ s.beside, e.levels ≤ n) ∧
        ∀ body ∈ s.bodies, 0 < n ∧ ∀ t ∈ body, t.levels < n := by
  cases s with
  | branch condition yes no =>
    cases no <;>
      simp [-Nat.add_max_add_right, levels, levelsOfOption, beside, expressions, operands, bodies,
        blocks, levelsOf_lt_iff]
  | each iterator iterable body =>
    simp [levels, beside, bodies, blocks, levelsOf_lt_iff,
      Expr.levelsOfOption_le_iff, or_imp, forall_and, and_assoc]
  | function | loop | par | seq =>
    simp [levels, beside, expressions, operands, bodies, blocks,
      levelsOf_lt_iff, Expr.levelsOf_le_iff]
  | _ => simp [levels, beside, expressions, bodies, blocks, Expr.levelsOf_le_iff]

end Stmt

-- The nodes of the tree of a program.
inductive Node where
  | program (p : Program)
  | stmt (s : Stmt)
  | expr (e : Expr)

namespace Node

-- The nodes behind the nesting edges of a node: the statements of its blocks, and what is
-- nested in an expression.
def inner : Node → List Node
  | program _ => []
  | stmt s => s.bodies.flatten.map stmt
  | expr e => e.inner.map expr

-- The nodes behind all other edges.
def beside : Node → List Node
  | program p => p.map stmt
  | stmt s => s.beside.map expr
  | expr e => e.beside.map expr

def levels : Node → Nat
  | program p => Stmt.levelsOf p
  | stmt s => s.levels
  | expr e => e.levels

theorem levels_beside {x y : Node} (hy : y ∈ x.beside) : y.levels ≤ x.levels := by
  cases x with
  | program p =>
    obtain ⟨s, hs, rfl⟩ := List.mem_map.mp hy
    exact Stmt.levelsOf_le_iff.mp (Nat.le_refl _) s hs
  | stmt s =>
    obtain ⟨e, he, rfl⟩ := List.mem_map.mp hy
    exact (Stmt.levels_le_iff.mp (Nat.le_refl _)).1 e he
  | expr e =>
    obtain ⟨x, hx, rfl⟩ := List.mem_map.mp hy
    exact Expr.levels_beside hx

theorem levels_inner {x y : Node} (hy : y ∈ x.inner) : y.levels < x.levels := by
  cases x with
  | program p => cases hy
  | stmt s =>
    obtain ⟨t, ht, rfl⟩ := List.mem_map.mp hy
    obtain ⟨body, hbody, ht⟩ := List.mem_flatten.mp ht
    exact ((Stmt.levels_le_iff.mp (Nat.le_refl _)).2 body hbody).2 t ht
  | expr e =>
    obtain ⟨x, hx, rfl⟩ := List.mem_map.mp hy
    exact Expr.levels_inner hx

end Node

-- A path down the tree, with the number of nesting edges that it crosses.
inductive Path : Node → Nat → Node → Prop
  | here (x) : Path x 0 x
  | beside {x y z k} (hy : y ∈ x.beside) (path : Path y k z) : Path x k z
  | inner {x y z k} (hy : y ∈ x.inner) (path : Path y k z) : Path x (k + 1) z

theorem Path.levels_le {x y : Node} {k : Nat} (h : Path x k y) : k + y.levels ≤ x.levels := by
  induction h with
  | here x => exact Nat.le_of_eq (Nat.zero_add _)
  | beside hy _ ih => exact Nat.le_trans ih (Node.levels_beside hy)
  | inner hy _ ih =>
    have hlt := Node.levels_inner hy
    omega

-- The levels of what is read at a depth fit in between that depth and the limit.
def nesting : Grammar.Reading where
  expr _ d _ _ e := d + e.levels ≤ Grammar.maxNesting
  suffixed _ d _ e := d + e.levels ≤ Grammar.maxNesting
  stmt _ d _ s _ := d ≤ Grammar.maxNesting → d + s.levels ≤ Grammar.maxNesting
  body _ d _ body _ := d ≤ Grammar.maxNesting → d + Stmt.levelsOf body ≤ Grammar.maxNesting

namespace nesting

open Grammar

variable {d : Nat} {σ : Scope} {ts : List Token}

-- An expression fits if what is beside it does, and what is nested in it one level further
-- down.
theorem expr {e : Expr} (hd : d < maxNesting)
    (hbeside : ∀ x ∈ e.beside, d + x.levels ≤ maxNesting)
    (hinner : ∀ x ∈ e.inner, d + 1 + x.levels ≤ maxNesting) : d + e.levels ≤ maxNesting := by
  obtain ⟨n, hn⟩ := Nat.exists_eq_add_of_lt hd
  have hle : e.levels ≤ n + 1 := by
    refine Expr.levels_le_iff.mpr ⟨fun x hx => ?_, fun x hx => ?_⟩
    · have hx := hbeside x hx
      omega
    · have hx := hinner x hx
      omega
  omega

theorem stmt {s : Stmt} (hd : d ≤ maxNesting)
    (hbeside : ∀ e ∈ s.beside, d + e.levels ≤ maxNesting)
    (hbodies : ∀ body ∈ s.bodies, d + 1 + Stmt.levelsOf body ≤ maxNesting) :
    d + s.levels ≤ maxNesting := by
  obtain ⟨n, hn⟩ := Nat.exists_eq_add_of_le hd
  have hle : s.levels ≤ n := by
    refine Stmt.levels_le_iff.mpr ⟨fun e he => ?_, fun body hbody => ?_⟩
    · have he := hbeside e he
      omega
    · have hbody := hbodies body hbody
      have hstmts : Stmt.levelsOf body < n := by omega
      exact Stmt.levelsOf_lt_iff.mp hstmts
  omega

theorem arguments {args : List Expr} (h : nesting.Arguments σ d ts args) :
    ∀ e ∈ args, d + e.levels ≤ maxNesting :=
  h.elim fun _ _ _ hargs => hargs.elim fun _ _ _ he => he

theorem annotated {name : Token} {ty : Ty} {init : Option Expr}
    (h : Annotated (fun _ e => d + e.levels ≤ maxNesting) ts name ty init) :
    ∀ e ∈ init, d + e.levels ≤ maxNesting :=
  h.elim fun _ _ _ he => he

theorem block {body : List Stmt} (hd : d < maxNesting) (h : nesting.Block σ d ts body) :
    d + 1 + Stmt.levelsOf body ≤ maxNesting :=
  h.elim fun _ _ _ hbody => hbody.choose_spec hd

-- A statement without blocks, and one with a single block.
theorem plain {s : Stmt} (hd : d ≤ maxNesting) (hs : s.bodies = [])
    (hbeside : ∀ e ∈ s.beside, d + e.levels ≤ maxNesting) : d + s.levels ≤ maxNesting :=
  stmt hd hbeside (by simp [hs])

theorem around {s : Stmt} {body : List Stmt} (hd : d < maxNesting) (hs : s.bodies = [body])
    (hbeside : ∀ e ∈ s.beside, d + e.levels ≤ maxNesting) (hbody : nesting.Block σ d ts body) :
    d + s.levels ≤ maxNesting := by
  refine stmt (Nat.le_of_lt hd) hbeside fun body' hbody' => ?_
  rw [hs, List.mem_singleton] at hbody'
  exact hbody' ▸ block hd hbody

theorem closed : nesting.Closed where
  tighter h := h
  assign hd htarget _ _ hvalue := expr hd (by simpa [Expr.beside]) (by simpa [Expr.inner])
  binary {_ d r _ _ _ _ _} hleft _ hright := by
    have hmax : ∀ {m n : Nat}, d + m ≤ maxNesting → d + n ≤ maxNesting →
        d + max m n ≤ maxNesting := by omega
    cases r with
    | _ =>
      simp only [nesting, Rank.node, Expr.levels] at hleft hright ⊢
      exact hmax hleft hright
  unary hd _ h := expr hd (by simp [Expr.beside]) (by simpa [Expr.inner])
  constant hd _ := hd
  grouped {_ d _ e} hd h := by
    have he : d + 1 + e.levels ≤ maxNesting := h.elim fun _ _ _ he => he
    show d + e.levels ≤ maxNesting
    omega
  array hd _ h _ := expr hd (by simp [Expr.beside]) (h.elim fun _ _ _ he => he)
  dict hd _ h _ := by
    refine expr hd (by simp [Expr.beside]) fun x hx => ?_
    obtain ⟨entry, hentry, rfl⟩ := List.mem_map.mp hx
    exact h.elim (fun _ _ _ hentry => hentry.elim fun _ _ _ he => he) entry hentry
  comprehension hd _ _ _ _ hiterator _ _ hiterable _ _ hprojection _ := by
    refine expr hd (fun x hx => ?_) fun x hx => ?_
    · have hx := annotated hiterator x (Option.mem_toList.mp hx)
      omega
    · simp only [Expr.inner, List.mem_cons, List.not_mem_nil, or_false] at hx
      rcases hx with rfl | rfl
      · exact hiterable
      · exact hprojection
  primary h := h
  name hd _ _ := hd
  call hd _ _ hargs := expr hd (by simp [Expr.beside]) (arguments hargs)
  access hd htarget hindex :=
    expr hd (by simpa [Expr.beside]) (by simpa [Expr.inner] using hindex.elim fun _ _ _ he => he)
  slice hd htarget _ hstart _ hstop _ := by
    refine expr hd (by simpa [Expr.beside]) fun x hx => ?_
    rcases List.mem_append.mp hx with hx | hx
    · exact hstart.elim (fun _ _ _ he => he) x (Option.mem_toList.mp hx)
    · exact hstop.elim (fun _ _ _ he => he) x (Option.mem_toList.mp hx)
  method hd hreceiver _ _ hargs := expr hd (by simpa [Expr.beside]) (arguments hargs)
  expression h _ hd := plain hd rfl (List.forall_mem_singleton.mpr h)
  declaration _ hdecl _ hd :=
    plain hd rfl fun e he => annotated hdecl e (Option.mem_toList.mp he)
  function hd _ _ _ hparams _ _ _ _ hbody _ := by
    refine around hd rfl (fun e he => ?_) hbody
    obtain ⟨p, hp, he⟩ := List.mem_filterMap.mp he
    exact hparams.elim (fun _ _ _ h => h.elim fun _ _ _ hp => hp.elim fun _ _ _ he => he) p hp e he
  ret _ h hd := plain hd rfl fun e he => h.elim (fun _ _ _ he => he) e (Option.mem_toList.mp he)
  branch hd _ hcondition hyes hno hd' := by
    refine stmt hd' (List.forall_mem_singleton.mpr (hcondition.elim fun _ _ _ he => he)) ?_
    intro body hbody
    rcases List.mem_cons.mp hbody with rfl | hbody
    · exact block hd hyes
    · have hbodies := hno.elim fun _ _ _ h => h.elim fun _ _ _ hbody => block hd hbody
      exact hbodies body (Option.mem_toList.mp hbody)
  loop hd _ hcondition hbody _ :=
    around hd rfl (List.forall_mem_singleton.mpr (hcondition.elim fun _ _ _ he => he)) hbody
  each hd _ _ _ hiterator _ hiterable _ hbody _ := by
    refine around hd rfl (fun e he => ?_) hbody
    simp only [Stmt.beside, List.mem_append, Option.mem_toList, List.mem_singleton] at he
    rcases he with he | rfl
    · exact annotated hiterator e he
    · exact hiterable
  brk _ hd := hd
  cont _ hd := hd
  par hd _ hbody _ := around hd rfl (List.forall_mem_nil _) hbody
  seq hd _ hbody _ := around hd rfl (List.forall_mem_nil _) hbody
  client _ _ _ _ hhost _ hport _ hd :=
    plain hd rfl (List.forall_mem_cons.mpr ⟨hhost, List.forall_mem_singleton.mpr hport⟩)
  server _ _ _ _ _ _ _ hdescription _ hhost _ hport _ hd :=
    plain hd rfl (List.forall_mem_cons.mpr ⟨hdescription,
      List.forall_mem_cons.mpr ⟨hhost, List.forall_mem_singleton.mpr hport⟩⟩)
  nil hd := hd
  skip _ h := h
  cons {_ _ _ d _ s _ rest} hs _ hrest hd := by
    have hs := hs hd
    have hrest := hrest hd
    show d + max s.levels (Stmt.levelsOf rest) ≤ maxNesting
    omega

end nesting

theorem levels_of_parse {source : String} {p : Program} (h : parse source = .ok p) :
    Stmt.levelsOf p ≤ Grammar.maxNesting := by
  obtain ⟨ts, eof, τ, -, -, hp⟩ := Grammar.Reading.of_parse nesting.closed h
  have hle := hp (Nat.zero_le _)
  omega

namespace Expr

-- The operators of a chain, each with the chain up to it on the left.
def operators : Expr → Nat
  | logical _ left _ => left.operators + 1
  | relational _ left _ => left.operators + 1
  | arithmetic _ left _ => left.operators + 1
  | _ => 0

-- The suffixes of a chain, each behind the chain up to it.
def suffixes : Expr → Nat
  | access target _ => target.suffixes + 1
  | slice target _ _ => target.suffixes + 1
  | method receiver _ _ => receiver.suffixes + 1
  | _ => 0

theorem operators_unlined : (e : Expr) → e.unlined.operators = e.operators
  | logical _ left _ | relational _ left _ | arithmetic _ left _ => by
    rw [unlined, operators, operators, left.operators_unlined]
  | constant _ | name _ _ | access _ _ | slice _ _ _ | unary _ _ | call _ _ _ | method _ _ _
  | array _ _ | dict _ _ | assign _ _ _ | comprehension _ _ _ _ _ _ => rfl
termination_by structural e => e

theorem suffixes_unlined : (e : Expr) → e.unlined.suffixes = e.suffixes
  | access target _ | slice target _ _ | method target _ _ => by
    rw [unlined, suffixes, suffixes, target.suffixes_unlined]
  | constant _ | name _ _ | logical _ _ _ | relational _ _ _ | arithmetic _ _ _ | unary _ _
  | call _ _ _ | array _ _ | dict _ _ | assign _ _ _ | comprehension _ _ _ _ _ _ => rfl
termination_by structural e => e

end Expr

-- Chains of a length: `print + print + ...` and `print.print().print()...`.
namespace Chain

open Grammar
open Token (mark)

def start : Expr :=
  .name (.ofName "print") .func

def sum (n : Nat) : Expr :=
  n.repeat (fun e => .arithmetic (mark .plus) e start) start

def calls (n : Nat) : Expr :=
  n.repeat (fun e => .method e (.ofName "print") []) start

theorem operators_sum (n : Nat) : (sum n).operators = n := by
  induction n with
  | zero => rfl
  | succ n ih => exact congrArg (· + 1) ih

theorem suffixes_calls (n : Nat) : (calls n).suffixes = n := by
  induction n with
  | zero => rfl
  | succ n ih => exact congrArg (· + 1) ih

theorem start_readable : start.Readable Scope.root 0 .primary :=
  .name (by decide) rfl (by decide)

theorem sum_readable (n : Nat) : (sum n).Readable Scope.root 0 .sum := by
  induction n with
  | zero => exact .of_next (.of_next (.of_next start_readable))
  | succ n ih => exact .binary ih (by decide) (.of_next (.of_next start_readable))

theorem calls_readable (n : Nat) : (calls n).Readable Scope.root 0 .primary := by
  induction n with
  | zero => exact start_readable
  | succ n ih =>
    refine .method (by decide) ih ?_ rfl (List.forall_mem_nil _)
    cases n <;> rfl

theorem start_spelled : (Token.ofName "print").Spelled :=
  Lexer.spelled_of_rereads (by decide) (by decide) 0

theorem sum_spelled (n : Nat) : AllSpelled (sum n).tokens := by
  induction n with
  | zero => simpa [sum, start, Nat.repeat, Expr.tokens] using start_spelled
  | succ n ih =>
    rw [sum, Nat.repeat, ← sum, Expr.tokens]
    simpa (disch := decide) [start, Expr.tokens, ih] using start_spelled

theorem calls_spelled (n : Nat) : AllSpelled (calls n).tokens := by
  induction n with
  | zero => simpa [calls, start, Nat.repeat, Expr.tokens] using start_spelled
  | succ n ih =>
    rw [calls, Nat.repeat, ← calls, Expr.tokens]
    simpa (disch := decide) [Expr.tokensOf, commas, ih] using start_spelled

-- A program of two chains.
def program (n : Nat) : Program :=
  [.ret (some (sum n)) 0, .ret (some (calls n)) 0]

theorem program_back (n : Nat) : BodyBack Scope.root 0 (program n) Scope.root := by
  refine .cons (.ret ?_) (.cons (.ret ?_) .nil)
  · rintro _ ⟨⟩
    exact .of_next (.of_next (.of_next (.of_next (sum_readable n))))
  · rintro _ ⟨⟩
    exact .of_next (.of_next (.of_next (.of_next (.of_next (.of_next (.of_next
      (calls_readable n)))))))

theorem program_spelled (n : Nat) : AllSpelled (Stmt.tokensOf (program n)) := by
  simp (disch := decide) [program, Stmt.tokensOf, Stmt.tokens, Expr.tokensOfOption, sum_spelled,
    calls_spelled]

theorem mem_of_unlined {p : Program} {s : Stmt} (h : s ∈ p.unlined) :
    ∃ t ∈ p, t.unlined = s := by
  induction p with
  | nil => cases h
  | cons t p ih =>
    rcases List.mem_cons.mp h with rfl | h
    · exact ⟨t, List.mem_cons_self, rfl⟩
    · obtain ⟨u, hu, hs⟩ := ih h
      exact ⟨u, List.mem_cons_of_mem t hu, hs⟩

theorem exists_of_unlined {p : Program} {e : Expr}
    (h : (Stmt.ret (some e) 0).unlined ∈ p.unlined) :
    ∃ x ∈ Program.expressions p, x.unlined = e.unlined := by
  obtain ⟨s, hs, heq⟩ := mem_of_unlined h
  have hparts : s ∈ Program.parts p := Stmt.mem_partsOf.mpr ⟨s, hs, Stmt.mem_parts_self s⟩
  cases s with
  | ret value line =>
    cases value with
    | none => simp [Stmt.unlined] at heq
    | some x =>
      refine ⟨x, Program.mem_expressions hparts List.mem_cons_self (Expr.mem_parts_self x), ?_⟩
      simpa [Stmt.unlined] using heq
  | _ => simp [Stmt.unlined] at heq

-- What is read from the text of the two chains has their operators and suffixes.
theorem exists_parse (n : Nat) :
    ∃ source p, parse source = .ok p ∧ (∃ e ∈ Program.expressions p, e.operators = n) ∧
      ∃ e ∈ Program.expressions p, e.suffixes = n := by
  have hlex : (lex (program n).unparse).map Token.unlined =
      (Stmt.tokensOf (program n)).map Token.unlined ++ [⟨.eof, "EOF", 0⟩] := by
    rw [lex, Program.unparse, String.toList_ofList]
    exact Lexer.lexFrom_text (program_spelled n) 1
  obtain ⟨q, t, hread, hq⟩ := (BodyBack.program (program_back n) hlex).exists_ok
  refine ⟨(program n).unparse, q, by rw [parse, hread]; rfl, ?_⟩
  obtain ⟨e, he, hsum⟩ : ∃ e ∈ Program.expressions q, e.unlined = (sum n).unlined :=
    exists_of_unlined (hq ▸ List.mem_cons_self)
  obtain ⟨f, hf, hcalls⟩ : ∃ e ∈ Program.expressions q, e.unlined = (calls n).unlined :=
    exists_of_unlined (hq ▸ List.mem_cons_of_mem _ List.mem_cons_self)
  refine ⟨⟨e, he, ?_⟩, f, hf, ?_⟩
  · rw [← Expr.operators_unlined, hsum, Expr.operators_unlined, operators_sum]
  · rw [← Expr.suffixes_unlined, hcalls, Expr.suffixes_unlined, suffixes_calls]

end Chain

-- A path down the tree of a program that can be read crosses at most 128 nesting edges. There
-- is no limit to the operators and suffixes that follow each other without nesting.
theorem nesting_is_bounded :
    (∀ {source : String} {p : Program} {k : Nat} {x : Node}, parse source = .ok p →
      Path (.program p) k x → k ≤ 128) ∧
    ∀ n, ∃ source p, parse source = .ok p ∧ (∃ e ∈ Program.expressions p, e.operators = n) ∧
      ∃ e ∈ Program.expressions p, e.suffixes = n := by
  refine ⟨fun {source p k x} h hpath => ?_, Chain.exists_parse⟩
  have hlevels : Stmt.levelsOf p ≤ 128 := levels_of_parse h
  have hle : k + x.levels ≤ Stmt.levelsOf p := hpath.levels_le
  omega

-- Three nesting edges lead to the number: a block, and an index and an operand in the
-- condition of the loop.
def threeLevels : String :=
  "if (true) \x7b while (print[-1]) \x7b break \x7d \x7d"

set_option maxRecDepth 10000 in
theorem threeLevels_is_bounded :
    ∃ p e, parse threeLevels = .ok p ∧ Path (.program p) 3 (.expr e) ∧ 3 ≤ 128 := by
  obtain ⟨p, hp, s, hs, t, ht, e, he, x, hx, y, hy, _⟩ : ∃ p, parse threeLevels = .ok p ∧
      ∃ s ∈ p, ∃ t ∈ s.bodies.flatten, ∃ e ∈ t.beside, ∃ x ∈ e.inner, ∃ y ∈ x.inner, True :=
    exists_of_any (by decide +kernel)
  have hpath : Path (.program p) 3 (.expr y) :=
    .beside (List.mem_map_of_mem hs) <| .inner (List.mem_map_of_mem ht) <|
      .beside (List.mem_map_of_mem he) <| .inner (List.mem_map_of_mem hx) <|
      .inner (List.mem_map_of_mem hy) (.here _)
  exact ⟨p, y, hp, hpath, nesting_is_bounded.1 hp hpath⟩

end Parlance
