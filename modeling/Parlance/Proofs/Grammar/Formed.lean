import Parlance.Proofs.Grammar.Stmt
import Parlance.Proofs.Syntax

namespace Parlance

namespace Expr

-- An expression whose operator belongs to its node, and which assigns to nothing but names and
-- elements.
def isFormed : Expr → Bool
  | logical op _ _ => op.kind == .or || op.kind == .and
  | relational op _ _ => op.kind.isRelational
  | arithmetic op _ _ => op.kind.isArithmetic
  | unary op _ => op.kind == .bang || op.kind == .minus
  | assign _ target _ => target.isAssignable
  | _ => true

def Formed (e : Expr) : Prop :=
  ∀ x ∈ e.parts, x.isFormed = true

theorem formed_iff {e : Expr} : e.Formed ↔ e.isFormed = true ∧ ∀ x ∈ e.children, x.Formed := by
  constructor
  · intro h
    exact ⟨h e (mem_parts_self e), fun x hx t ht => h t (parts_subset hx t ht)⟩
  · rintro ⟨hself, hchildren⟩ t ht
    rcases mem_parts.mp ht with rfl | ⟨x, hx, ht⟩
    · exact hself
    · exact hchildren x hx t ht

theorem Formed.child {e x : Expr} (h : e.Formed) (hx : x ∈ e.children) : x.Formed :=
  (formed_iff.mp h).2 x hx

end Expr

namespace Stmt

-- A statement that gives no two parameters of a function one name.
def isFormed : Stmt → Bool
  | function _ _ params _ _ => (params.map Param.name).Nodup
  | _ => true

def Formed (s : Stmt) : Prop :=
  ∀ t ∈ s.parts, t.isFormed = true ∧ ∀ e ∈ t.expressions, e.Formed

theorem formed_iff {s : Stmt} :
    s.Formed ↔ (s.isFormed = true ∧ ∀ e ∈ s.expressions, e.Formed) ∧
      ∀ body ∈ s.bodies, ∀ t ∈ body, t.Formed := by
  constructor
  · intro h
    refine ⟨h s (mem_parts_self s), fun body hbody t ht u hu => ?_⟩
    exact h u (parts_subset hbody ht u hu)
  · rintro ⟨hself, hbodies⟩ t ht
    rcases mem_parts.mp ht with rfl | ⟨body, hbody, ht⟩
    · exact hself
    · obtain ⟨u, hu, ht⟩ := mem_partsOf.mp ht
      exact hbodies body hbody u hu t ht

end Stmt

-- Everything that is read is formed, wherever it stands.
def forming : Grammar.Reading where
  expr _ _ _ _ e := e.Formed
  suffixed _ _ _ e := e.Formed
  stmt _ _ _ s _ := s.Formed
  body _ _ _ body _ := ∀ s ∈ body, s.Formed

namespace forming

open Grammar Parlance.Expr

theorem block {d : Nat} {σ : Scope} {ts : List Token} {body : List Stmt}
    (h : forming.Block σ d ts body) : ∀ s ∈ body, s.Formed :=
  h.elim fun _ _ _ hbody => hbody.choose_spec

theorem arguments {d : Nat} {σ : Scope} {ts : List Token} {args : List Expr}
    (h : forming.Arguments σ d ts args) : ∀ e ∈ args, e.Formed :=
  h.elim fun _ _ _ hargs => hargs.elim fun _ _ _ he => he

theorem annotated {ts : List Token} {name : Token} {ty : Ty} {init : Option Expr}
    (h : Annotated (fun _ e => e.Formed) ts name ty init) : ∀ e ∈ init, e.Formed :=
  h.elim fun _ _ _ he => he

-- An expression is formed if its own operator is right and what it is made of is formed.
theorem node {e : Expr} (hself : e.isFormed = true) (h : ∀ x ∈ e.children, x.Formed) :
    e.Formed :=
  formed_iff.mpr ⟨hself, h⟩

theorem pair {x y : Expr} (hx : x.Formed) (hy : y.Formed) : ∀ e ∈ [x, y], e.Formed := by
  simpa using ⟨hx, hy⟩

theorem binary {r : Rank} {operator : Token} {left right : Expr} (hleft : left.Formed)
    (hoperator : operator.kind ∈ r.operators) (hright : right.Formed) :
    (r.node operator left right).Formed := by
  have hchildren := pair hleft hright
  cases r with
  | assignment | unary | primary => cases hoperator
  | logicOr | logicAnd =>
    refine node ?_ hchildren
    simp_all [Rank.operators, Rank.node, isFormed]
  | equality | comparison =>
    refine node ?_ hchildren
    simp only [Rank.operators, List.mem_cons, List.not_mem_nil, or_false] at hoperator
    simp only [Rank.node, isFormed]
    grind [TokenKind.isRelational]
  | sum | term =>
    refine node ?_ hchildren
    simp only [Rank.operators, List.mem_cons, List.not_mem_nil, or_false] at hoperator
    simp only [Rank.node, isFormed]
    grind [TokenKind.isArithmetic]

-- A statement without blocks is formed if what it evaluates is.
theorem simple {s : Stmt} (hself : s.isFormed = true) (hbodies : s.bodies = [])
    (h : ∀ e ∈ s.expressions, e.Formed) : s.Formed := by
  refine Stmt.formed_iff.mpr ⟨⟨hself, h⟩, ?_⟩
  simp [hbodies]

theorem closed : forming.Closed where
  tighter h := h
  assign _ htarget hassignable _ hvalue := node hassignable (pair htarget hvalue)
  binary hleft hoperator hright := binary hleft hoperator hright
  unary _ hoperator h := by
    refine node ?_ (List.forall_mem_singleton.mpr h)
    simpa [isFormed] using hoperator
  constant _ _ := node rfl (by simp [children, operands])
  grouped _ h := h.elim fun _ _ _ he => he
  array _ _ h _ := node rfl (h.elim fun _ _ _ he => he)
  dict _ _ h _ := by
    have hentries := h.elim fun _ _ _ hentry => hentry.elim fun _ _ _ he => he
    exact node rfl (List.forall_mem_map.mpr hentries)
  comprehension _ _ _ _ _ _ _ _ hiterable _ _ hprojection _ :=
    node rfl (pair hiterable hprojection)
  primary h := h
  name _ _ _ := node rfl (by simp [children, operands])
  call _ _ _ hargs := node rfl (arguments hargs)
  access _ htarget hindex := node rfl (pair htarget (hindex.elim fun _ _ _ he => he))
  slice _ htarget _ hstart _ hstop _ := by
    have hstart := hstart.elim fun _ _ _ he => he
    have hstop := hstop.elim fun _ _ _ he => he
    refine node rfl (List.forall_mem_cons.mpr ⟨htarget, fun x hx => ?_⟩)
    rcases List.mem_append.mp hx with hx | hx
    · exact hstart x (Option.mem_toList.mp hx)
    · exact hstop x (Option.mem_toList.mp hx)
  method _ hreceiver _ _ hargs :=
    node rfl (List.forall_mem_cons.mpr ⟨hreceiver, arguments hargs⟩)
  expression h _ := simple rfl rfl (List.forall_mem_singleton.mpr h)
  declaration _ hdecl _ :=
    simple rfl rfl fun e he => annotated hdecl e (Option.mem_toList.mp he)
  function _ _ _ _ hparams hnodup _ _ _ hbody := by
    have hdefaults := hparams.elim fun _ _ _ h => h.elim fun _ _ _ hp => hp.elim fun _ _ _ he => he
    refine Stmt.formed_iff.mpr ⟨⟨decide_eq_true hnodup, fun e he => ?_⟩, ?_⟩
    · obtain ⟨p, hp, he⟩ := List.mem_filterMap.mp he
      exact hdefaults p hp e he
    · exact List.forall_mem_singleton.mpr (block hbody)
  ret _ h := by
    have hvalue := h.elim fun _ _ _ he => he
    exact simple rfl rfl fun e he => hvalue e (Option.mem_toList.mp he)
  branch _ _ hcondition hyes hno := by
    have hcondition := hcondition.elim fun _ _ _ he => he
    have hno := hno.elim fun _ _ _ h => h.elim fun _ _ _ hbody => block hbody
    refine Stmt.formed_iff.mpr ⟨⟨rfl, List.forall_mem_singleton.mpr hcondition⟩, ?_⟩
    refine List.forall_mem_cons.mpr ⟨block hyes, fun body hbody => ?_⟩
    exact hno body (Option.mem_toList.mp hbody)
  loop _ _ hcondition hbody := by
    have hcondition := hcondition.elim fun _ _ _ he => he
    exact Stmt.formed_iff.mpr ⟨⟨rfl, List.forall_mem_singleton.mpr hcondition⟩,
      List.forall_mem_singleton.mpr (block hbody)⟩
  each _ _ _ _ _ _ hiterable _ hbody :=
    Stmt.formed_iff.mpr ⟨⟨rfl, List.forall_mem_singleton.mpr hiterable⟩,
      List.forall_mem_singleton.mpr (block hbody)⟩
  brk _ := simple rfl rfl (by simp [Stmt.expressions, Stmt.operands])
  cont _ := simple rfl rfl (by simp [Stmt.expressions, Stmt.operands])
  par _ _ hbody :=
    Stmt.formed_iff.mpr ⟨⟨rfl, by simp [Stmt.expressions]⟩,
      List.forall_mem_singleton.mpr (block hbody)⟩
  seq _ _ hbody :=
    Stmt.formed_iff.mpr ⟨⟨rfl, by simp [Stmt.expressions, Stmt.operands]⟩,
      List.forall_mem_singleton.mpr (block hbody)⟩
  client _ _ _ _ hhost _ hport _ := simple rfl rfl (pair hhost hport)
  server _ _ _ _ _ _ _ hdescription _ hhost _ hport _ :=
    simple rfl rfl (List.forall_mem_cons.mpr ⟨hdescription, pair hhost hport⟩)
  nil := List.forall_mem_nil _
  skip _ h := h
  cons hs _ hrest := List.forall_mem_cons.mpr ⟨hs, hrest⟩

end forming

theorem formed_of_parse {source : String} {p : Program} (h : parse source = .ok p) :
    ∀ s ∈ p, s.Formed := by
  obtain ⟨ts, eof, τ, -, -, hp⟩ := Grammar.Reading.of_parse forming.closed h
  exact hp

-- Every expression and every statement of a program that can be read is formed.
theorem Program.formed_of_mem {source : String} {p : Program} (h : parse source = .ok p) :
    (∀ s ∈ Program.parts p, s.isFormed = true) ∧
      ∀ e ∈ Program.expressions p, e.Formed := by
  have hparts : ∀ s ∈ Program.parts p, s.isFormed = true ∧ ∀ e ∈ s.expressions, e.Formed := by
    intro s hs
    obtain ⟨t, ht, hs⟩ := Stmt.mem_partsOf.mp hs
    exact formed_of_parse h t ht s hs
  refine ⟨fun s hs => (hparts s hs).1, fun x hx => ?_⟩
  obtain ⟨s, hs, hx⟩ := List.mem_flatMap.mp hx
  obtain ⟨e, he, hx⟩ := List.mem_flatMap.mp hx
  exact Expr.of_mem_parts (fun _ h _ hx => h.child hx) ((hparts s hs).2 e he) hx

end Parlance
