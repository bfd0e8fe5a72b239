import Parlance.Proofs.Grammar.Stmt
import Parlance.Proofs.Syntax

namespace Parlance

-- All literals of an expression stand among some tokens.
def Expr.Cites (ts : List Token) (e : Expr) : Prop :=
  ∀ t, .constant t ∈ e.parts → t ∈ ts

def Stmt.Cites (ts : List Token) (s : Stmt) : Prop :=
  ∀ t ∈ s.parts, ∀ e ∈ t.expressions, e.Cites ts

variable {ts us : List Token}

theorem Expr.Cites.mono {e : Expr} (h : e.Cites us) (hus : us ⊆ ts) : e.Cites ts :=
  fun t ht => hus (h t ht)

theorem Stmt.Cites.mono {s : Stmt} (h : s.Cites us) (hus : us ⊆ ts) : s.Cites ts :=
  fun t ht e he => (h t ht e he).mono hus

-- What is read has its literals from the tokens that it is read from.
def citing : Grammar.Reading where
  expr _ _ _ ts e := e.Cites ts
  suffixed _ _ ts e := e.Cites ts
  stmt _ _ ts s _ := s.Cites ts
  body _ _ ts body _ := ∀ s ∈ body, s.Cites ts

namespace citing

open Grammar

theorem block {d : Nat} {σ : Scope} {body : List Stmt} (h : citing.Block σ d us body)
    (hus : us ⊆ ts) : ∀ s ∈ body, s.Cites ts := by
  refine h.elim (P := fun body => ∀ s ∈ body, s.Cites ts) fun _ _ hvs hbody s hs => ?_
  exact (hbody.choose_spec s hs).mono fun _ ht => hus (hvs ht)

theorem arguments {d : Nat} {σ : Scope} {args : List Expr} (h : citing.Arguments σ d us args)
    (hus : us ⊆ ts) : ∀ e ∈ args, e.Cites ts :=
  h.elim fun _ _ hvs hargs => hargs.elim fun _ _ hws he =>
    he.mono (List.Subset.trans hws (List.Subset.trans hvs hus))

-- An expression that is no literal has its literals from what it is made of.
theorem node {e : Expr} (hself : ∀ t, e ≠ .constant t) (h : ∀ x ∈ e.children, x.Cites ts) :
    e.Cites ts := by
  intro t ht
  rcases Expr.mem_parts.mp ht with hself' | ⟨x, hx, ht⟩
  · exact absurd hself'.symm (hself t)
  · exact h x hx t ht

theorem pair {x y : Expr} (hx : x.Cites ts) (hy : y.Cites ts) : ∀ e ∈ [x, y], e.Cites ts := by
  simpa using ⟨hx, hy⟩

theorem binary {r : Rank} {operator : Token} {left right : Expr} (hleft : left.Cites ts)
    (hright : right.Cites ts) : (r.node operator left right).Cites ts := by
  have hchildren := pair hleft hright
  cases r <;> exact node (fun _ => Expr.noConfusion) hchildren

-- A statement has its literals from what it evaluates itself and from its blocks.
theorem compound {s : Stmt} (h : ∀ e ∈ s.expressions, e.Cites ts)
    (hbodies : ∀ body ∈ s.bodies, ∀ t ∈ body, t.Cites ts) : s.Cites ts := by
  intro t ht
  rcases Stmt.mem_parts.mp ht with rfl | ⟨body, hbody, ht⟩
  · exact h
  · obtain ⟨u, hu, ht⟩ := Stmt.mem_partsOf.mp ht
    exact hbodies body hbody u hu t ht

theorem simple {s : Stmt} (hbodies : s.bodies = []) (h : ∀ e ∈ s.expressions, e.Cites ts) :
    s.Cites ts :=
  compound h (by simp [hbodies])

theorem closed : citing.Closed where
  tighter h := h
  assign _ htarget _ _ hvalue :=
    node (fun _ => Expr.noConfusion)
      (pair (htarget.mono fun _ ht => by simp [ht]) (hvalue.mono fun _ ht => by simp [ht]))
  binary hleft _ hright :=
    binary (hleft.mono fun _ ht => by simp [ht]) (hright.mono fun _ ht => by simp [ht])
  unary _ _ h := by
    refine node (fun _ => Expr.noConfusion) (List.forall_mem_singleton.mpr ?_)
    exact h.mono fun _ ht => by simp [ht]
  constant _ _ := by
    intro t ht
    rcases Expr.mem_parts.mp ht with heq | ⟨x, hx, -⟩
    · cases heq
      exact List.mem_singleton.mpr rfl
    · cases hx
  grouped _ h := h.elim fun _ _ hus he => he.mono hus
  array _ _ h _ := by
    refine node (fun _ => Expr.noConfusion) (h.elim fun us _ hus he => he.mono fun t ht => ?_)
    simp [hus ht]
  dict _ _ h _ := by
    refine node (fun _ => Expr.noConfusion) (List.forall_mem_map.mpr ?_)
    refine h.elim fun _ _ hus hentry => hentry.elim fun _ _ hvs he => he.mono fun t ht => ?_
    simp [hus (hvs ht)]
  comprehension _ _ _ _ _ _ _ _ hiterable _ _ hprojection _ :=
    node (fun _ => Expr.noConfusion)
      (pair (hiterable.mono fun _ ht => by simp [ht]) (hprojection.mono fun _ ht => by simp [ht]))
  primary h := h
  name _ _ _ := node (fun _ => Expr.noConfusion) (by simp [Expr.children, Expr.operands])
  call _ _ _ hargs :=
    node (fun _ => Expr.noConfusion) (arguments hargs fun _ ht => by simp [ht])
  access _ htarget hindex := by
    have hindex := hindex.elim fun _ _ hus he => he.mono hus
    exact node (fun _ => Expr.noConfusion)
      (pair (htarget.mono fun _ ht => by simp [ht]) (hindex.mono fun _ ht => by simp [ht]))
  slice _ htarget _ hstart _ hstop _ := by
    have hstart := hstart.elim fun _ _ hus he => he.mono hus
    have hstop := hstop.elim fun _ _ hus he => he.mono hus
    refine node (fun _ => Expr.noConfusion) (List.forall_mem_cons.mpr ⟨?_, fun x hx => ?_⟩)
    · exact htarget.mono fun _ ht => by simp [ht]
    · rcases List.mem_append.mp hx with hx | hx
      · exact (hstart x (Option.mem_toList.mp hx)).mono fun _ ht => by simp [ht]
      · exact (hstop x (Option.mem_toList.mp hx)).mono fun _ ht => by simp [ht]
  method _ hreceiver _ _ hargs :=
    node (fun _ => Expr.noConfusion) (List.forall_mem_cons.mpr
      ⟨hreceiver.mono fun _ ht => by simp [ht], arguments hargs fun _ ht => by simp [ht]⟩)
  expression h _ := simple rfl (List.forall_mem_singleton.mpr h)
  declaration _ hdecl _ := by
    have hinit := hdecl.elim fun _ _ hus he => he.mono hus
    refine simple rfl fun e he => (hinit e (Option.mem_toList.mp he)).mono fun _ ht => ?_
    exact List.mem_cons_of_mem _ ht
  function _ _ _ _ hparams _ _ _ _ hbody := by
    have hdefaults := hparams.elim fun _ _ hus h => h.elim fun _ _ hvs hp =>
      hp.elim fun _ _ hws he => he.mono fun _ ht => hus (hvs (hws ht))
    refine compound (fun e he => ?_) (List.forall_mem_singleton.mpr ?_)
    · obtain ⟨p, hp, he⟩ := List.mem_filterMap.mp he
      exact (hdefaults p hp e he).mono fun _ ht => by simp [ht]
    · exact block hbody fun _ ht => by simp [ht]
  ret _ h := by
    have hvalue := h.elim fun _ _ hus he => he.mono hus
    refine simple rfl fun e he => (hvalue e (Option.mem_toList.mp he)).mono fun _ ht => ?_
    exact List.mem_cons_of_mem _ ht
  branch _ _ hcondition hyes hno := by
    have hcondition := hcondition.elim fun _ _ hus he => he.mono hus
    refine compound (List.forall_mem_singleton.mpr ?_) (List.forall_mem_cons.mpr ⟨?_, ?_⟩)
    · exact hcondition.mono fun _ ht => by simp [ht]
    · exact block hyes fun _ ht => by simp [ht]
    · intro body hbody
      have hno := hno.elim fun _ _ hus h => h.elim fun _ _ hvs hbody =>
        block hbody fun _ ht => hus (hvs ht)
      exact fun s hs => (hno body (Option.mem_toList.mp hbody) s hs).mono fun _ ht => by simp [ht]
  loop _ _ hcondition hbody := by
    have hcondition := hcondition.elim fun _ _ hus he => he.mono hus
    refine compound (List.forall_mem_singleton.mpr ?_) (List.forall_mem_singleton.mpr ?_)
    · exact hcondition.mono fun _ ht => by simp [ht]
    · exact block hbody fun _ ht => by simp [ht]
  each _ _ _ _ _ _ hiterable _ hbody :=
    compound (List.forall_mem_singleton.mpr (hiterable.mono fun _ ht => by simp [ht]))
      (List.forall_mem_singleton.mpr (block hbody fun _ ht => by simp [ht]))
  brk _ := simple rfl (by simp [Stmt.expressions, Stmt.operands])
  cont _ := simple rfl (by simp [Stmt.expressions, Stmt.operands])
  par _ _ hbody :=
    compound (by simp [Stmt.expressions])
      (List.forall_mem_singleton.mpr (block hbody fun _ ht => by simp [ht]))
  seq _ _ hbody :=
    compound (by simp [Stmt.expressions, Stmt.operands])
      (List.forall_mem_singleton.mpr (block hbody fun _ ht => by simp [ht]))
  client _ _ _ _ hhost _ hport _ :=
    simple rfl (pair (hhost.mono fun _ ht => by simp [ht]) (hport.mono fun _ ht => by simp [ht]))
  server _ _ _ _ _ _ _ hdescription _ hhost _ hport _ :=
    simple rfl (List.forall_mem_cons.mpr ⟨hdescription.mono fun _ ht => by simp [ht],
      pair (hhost.mono fun _ ht => by simp [ht]) (hport.mono fun _ ht => by simp [ht])⟩)
  nil := List.forall_mem_nil _
  skip _ h s hs := (h s hs).mono fun _ ht => by simp [ht]
  cons hs _ hrest :=
    List.forall_mem_cons.mpr ⟨hs.mono fun _ ht => by simp [ht],
      fun s hs => (hrest s hs).mono fun _ ht => by simp [ht]⟩

end citing

-- All literals of a program stand in its text.
theorem cites_of_parse {source : String} {p : Program} (h : parse source = .ok p) :
    ∀ s ∈ p, s.Cites (lex source) := by
  obtain ⟨ts, eof, τ, hlex, -, hp⟩ := Grammar.Reading.of_parse citing.closed h
  exact fun s hs => (hp s hs).mono fun _ ht => by simp [hlex, ht]

end Parlance
