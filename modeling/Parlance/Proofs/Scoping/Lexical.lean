import Parlance.Proofs.Accepted
import Parlance.Proofs.Grammar.Stmt

namespace Parlance

-- A name that no declaration of a block has.
def Fresh (x : String) (block : Layer) : Prop :=
  ∀ ty, (x, ty) ∉ block

-- The innermost of the blocks around a place that declares a name declares it with a type.
inductive Visible (x : String) (ty : Ty) : List Layer → Prop
  | here {block outer} (h : (x, ty) ∈ block) : Visible x ty (block :: outer)
  | outside {block outer} (hfresh : Fresh x block) (h : Visible x ty outer) :
      Visible x ty (block :: outer)

-- Expressions all of whose names are visible where they stand, with the types that they keep.
-- A comprehension is a block, in which its iterator is declared behind its own initializer.
inductive Expr.WellScoped : List Layer → Expr → Prop
  | constant {env} (token) : WellScoped env (.constant token)
  | name {env token ty} (h : Visible token.lexeme ty env) : WellScoped env (.name token ty)
  | access {env target index} (htarget : WellScoped env target) (hindex : WellScoped env index) :
      WellScoped env (.access target index)
  | slice {env target start stop} (htarget : WellScoped env target)
      (hstart : ∀ e ∈ start, WellScoped env e) (hstop : ∀ e ∈ stop, WellScoped env e) :
      WellScoped env (.slice target start stop)
  | logical {env left right} (operator) (hleft : WellScoped env left)
      (hright : WellScoped env right) : WellScoped env (.logical operator left right)
  | relational {env left right} (operator) (hleft : WellScoped env left)
      (hright : WellScoped env right) : WellScoped env (.relational operator left right)
  | arithmetic {env left right} (operator) (hleft : WellScoped env left)
      (hright : WellScoped env right) : WellScoped env (.arithmetic operator left right)
  | unary {env operand} (operator) (h : WellScoped env operand) :
      WellScoped env (.unary operator operand)
  | call {env callee ty args} (h : Visible callee.lexeme ty env)
      (hargs : ∀ e ∈ args, WellScoped env e) : WellScoped env (.call callee ty args)
  | method {env receiver args} (operation) (hreceiver : WellScoped env receiver)
      (hargs : ∀ e ∈ args, WellScoped env e) : WellScoped env (.method receiver operation args)
  | array {env items} (bracket) (h : ∀ e ∈ items, WellScoped env e) :
      WellScoped env (.array bracket items)
  | dict {env} {entries : List (String × Expr)} (brace) (h : ∀ e ∈ entries, WellScoped env e.2) :
      WellScoped env (.dict brace entries)
  | assign {env target value} (equal) (htarget : WellScoped env target)
      (hvalue : WellScoped env value) : WellScoped env (.assign equal target value)
  | comprehension {env iterator ty init iterable projection} (bracket)
      (hinit : ∀ e ∈ init, WellScoped ([] :: env) e)
      (hiterable : WellScoped ([(iterator.lexeme, ty)] :: env) iterable)
      (hprojection : WellScoped ([(iterator.lexeme, ty)] :: env) projection) :
      WellScoped env (.comprehension bracket iterator ty init iterable projection)

mutual

-- Statements of a block inside others, with what the block has declared before them and what
-- it has declared after them.
inductive Stmt.WellScoped : List Layer → Layer → Stmt → Layer → Prop
  | expression {outer block e} (h : Expr.WellScoped (block :: outer) e) :
      Stmt.WellScoped outer block (.expression e) block
  | declaration {outer block} {decl : Declaration}
      (hinit : ∀ e ∈ decl.init, Expr.WellScoped (block :: outer) e)
      (hfresh : Fresh decl.name.lexeme block) :
      Stmt.WellScoped outer block (.declaration decl) ((decl.name.lexeme, decl.ty) :: block)
  | function {outer block name body} {params : List Param} (returns line)
      (hfresh : Fresh name block) (hparams : ∀ p ∈ params, ∀ e ∈ p.default,
        Expr.WellScoped (((name, .func) :: block) :: outer) e)
      (hnodup : (params.map Param.name).Nodup)
      (hbody : Body.WellScoped (((name, .func) :: block) :: outer)
        (params.map fun p => (p.name, p.ty)).reverse body) :
      Stmt.WellScoped outer block (.function name returns params body line)
        ((name, .func) :: block)
  | ret {outer block value} (line) (h : ∀ e ∈ value, Expr.WellScoped (block :: outer) e) :
      Stmt.WellScoped outer block (.ret value line) block
  | branch {outer block condition yes no}
      (hcondition : Expr.WellScoped (block :: outer) condition)
      (hyes : Body.WellScoped (block :: outer) [] yes)
      (hno : ∀ body ∈ no, Body.WellScoped (block :: outer) [] body) :
      Stmt.WellScoped outer block (.branch condition yes no) block
  | loop {outer block condition body} (hcondition : Expr.WellScoped (block :: outer) condition)
      (hbody : Body.WellScoped (block :: outer) [] body) :
      Stmt.WellScoped outer block (.loop condition body) block
  | each {outer block} {iterator : Declaration} {iterable body}
      (hinit : ∀ e ∈ iterator.init, Expr.WellScoped (block :: outer) e)
      (hiterable : Expr.WellScoped (block :: outer) iterable)
      (hbody : Body.WellScoped (block :: outer) [(iterator.name.lexeme, iterator.ty)] body) :
      Stmt.WellScoped outer block (.each iterator iterable body) block
  | brk {outer block} (line) : Stmt.WellScoped outer block (.brk line) block
  | cont {outer block} (line) : Stmt.WellScoped outer block (.cont line) block
  | par {outer block body} (line) (hbody : Body.WellScoped (block :: outer) [] body) :
      Stmt.WellScoped outer block (.par body line) block
  | seq {outer block body} (hbody : Body.WellScoped (block :: outer) [] body) :
      Stmt.WellScoped outer block (.seq body) block
  | client {outer block name host port} (line) (hfresh : Fresh name block)
      (hhost : Expr.WellScoped (((name, .client) :: block) :: outer) host)
      (hport : Expr.WellScoped (((name, .client) :: block) :: outer) port) :
      Stmt.WellScoped outer block (.client name host port line) ((name, .client) :: block)
  | server {outer block name handler ty description host port} (line) (hfresh : Fresh name block)
      (hhandler : Visible handler.lexeme ty (((name, .server) :: block) :: outer))
      (hdescription : Expr.WellScoped (((name, .server) :: block) :: outer) description)
      (hhost : Expr.WellScoped (((name, .server) :: block) :: outer) host)
      (hport : Expr.WellScoped (((name, .server) :: block) :: outer) port) :
      Stmt.WellScoped outer block (.server name handler description host port line)
        ((name, .server) :: block)

-- What is left of a block inside others, after what the block has declared so far.
inductive Body.WellScoped : List Layer → Layer → List Stmt → Prop
  | nil {outer block} : Body.WellScoped outer block []
  | cons {outer block block' s rest} (head : Stmt.WellScoped outer block s block')
      (tail : Body.WellScoped outer block' rest) : Body.WellScoped outer block (s :: rest)

end

-- The declarations that every program starts with.
def builtins : Layer :=
  signatures.map fun s => (s.1, .func)

namespace Scope

theorem fresh_of_lookup {block : Layer} {x : String} (h : block.lookup x = none) :
    Fresh x block := by
  intro ty hmem
  have hne := List.lookup_eq_none_iff.mp h (x, ty) hmem
  simp at hne

theorem mem_of_lookup {block : Layer} {x : String} {ty : Ty} (h : block.lookup x = some ty) :
    (x, ty) ∈ block := by
  obtain ⟨before, after, rfl, _⟩ := List.lookup_eq_some_iff.mp h
  exact List.mem_append_right before List.mem_cons_self

theorem visible_of_findSome? {env : List Layer} {x : String} {ty : Ty}
    (h : (env.findSome? fun block => block.lookup x) = some ty) : Visible x ty env := by
  induction env with
  | nil => cases h
  | cons block outer ih =>
    rw [List.findSome?_cons] at h
    split at h
    · next hlookup =>
      cases h
      exact .here (mem_of_lookup hlookup)
    · next hlookup => exact .outside (fresh_of_lookup hlookup) (ih h)

theorem visible_of_find? {σ : Scope} {x : String} {ty : Ty} (h : σ.find? x = some ty) :
    Visible x ty σ.layers :=
  visible_of_findSome? h

theorem of_insert? {σ τ : Scope} {x : String} {ty : Ty} (h : σ.insert? x ty = some τ) :
    Fresh x σ.layer ∧ τ = ⟨(x, ty) :: σ.layer, σ.outer⟩ := by
  unfold insert? at h
  split at h
  · cases h
  · next hlookup =>
    cases h
    exact ⟨fresh_of_lookup hlookup, rfl⟩

theorem insert?_of_fresh {σ : Scope} {x : String} (ty : Ty) (h : Fresh x σ.layer) :
    σ.insert? x ty = some ⟨(x, ty) :: σ.layer, σ.outer⟩ := by
  unfold insert?
  split
  · next hlookup => exact absurd (mem_of_lookup hlookup) (h _)
  · rfl

-- Names that differ from each other and from those of the block are all declared.
theorem insertAll_of_nodup {σ : Scope} {seed : Layer} (hnodup : (seed.map Prod.fst).Nodup)
    (hfresh : ∀ entry ∈ seed, Fresh entry.1 σ.layer) :
    σ.insertAll seed = ⟨seed.reverse ++ σ.layer, σ.outer⟩ := by
  induction seed generalizing σ with
  | nil => rfl
  | cons entry seed ih =>
    obtain ⟨hhead, htail⟩ := List.nodup_cons.mp hnodup
    obtain ⟨hentry, hrest⟩ := List.forall_mem_cons.mp hfresh
    rw [insertAll, insert?_of_fresh entry.2 hentry, Option.getD_some, ih htail]
    · simp
    · intro other hother ty hmem
      rcases List.mem_cons.mp hmem with heq | hmem
      · have hname : other.1 = entry.1 := (Prod.mk.inj heq).1
        exact hhead (hname ▸ List.mem_map_of_mem hother)
      · exact hrest other hother ty hmem

end Scope

-- The judgement of visible names, which looks at neither tokens nor depths.
def lexical : Grammar.Reading where
  expr σ _ _ _ e := e.WellScoped σ.layers
  suffixed σ _ _ e := e.WellScoped σ.layers
  stmt σ _ _ s τ := s.WellScoped σ.outer σ.layer τ.layer ∧ τ.outer = σ.outer
  body σ _ _ body _ := Body.WellScoped σ.outer σ.layer body

namespace lexical

open Grammar

theorem block {σ : Scope} {d : Nat} {ts : List Token} {body : List Stmt}
    (h : lexical.Block σ d ts body) : Body.WellScoped σ.outer σ.layer body :=
  h.elim fun _ _ _ hbody => hbody.choose_spec

theorem arguments {σ : Scope} {d : Nat} {ts : List Token} {args : List Expr}
    (h : lexical.Arguments σ d ts args) : ∀ e ∈ args, e.WellScoped σ.layers :=
  h.elim fun _ _ _ hargs => hargs.elim fun _ _ _ he => he

theorem annotated {σ : Scope} {ts : List Token} {name : Token} {ty : Ty} {init : Option Expr}
    (h : Annotated (fun _ e => e.WellScoped σ.layers) ts name ty init) :
    ∀ e ∈ init, e.WellScoped σ.layers :=
  h.elim fun _ _ _ he => he

-- The block of a function starts with its parameters, the last one in front.
theorem insertAll_params {σ : Scope} {params : List Param} (h : (params.map Param.name).Nodup) :
    σ.push.insertAll (params.map fun p => (p.name, p.ty)) =
      ⟨(params.map fun p => (p.name, p.ty)).reverse, σ.layers⟩ := by
  rw [Scope.insertAll_of_nodup]
  · rw [Scope.push, List.append_nil]
  · simpa [List.map_map, Function.comp_def] using h
  · intro entry _ ty hmem
    cases hmem

theorem closed : lexical.Closed where
  tighter h := h
  assign _ htarget _ _ hvalue := .assign _ htarget hvalue
  binary {_ _ r _ _ _ _ _} hleft _ hright := by
    cases r with
    | logicOr | logicAnd => exact .logical _ hleft hright
    | equality | comparison => exact .relational _ hleft hright
    | _ => exact .arithmetic _ hleft hright
  unary _ _ h := .unary _ h
  constant _ _ := .constant _
  grouped _ h := h.elim fun _ _ _ he => he
  array _ _ h _ := .array _ (h.elim fun _ _ _ he => he)
  dict _ _ h _ := .dict _ (h.elim fun _ _ _ hentry => hentry.elim fun _ _ _ he => he)
  comprehension _ _ _ _ _ hiterator hτ _ hiterable _ _ hprojection _ := by
    obtain ⟨-, rfl⟩ := Scope.of_insert? hτ
    exact .comprehension _ (annotated hiterator) hiterable hprojection
  primary h := h
  name _ _ h := .name (Scope.visible_of_find? h)
  call _ _ h hargs := .call (Scope.visible_of_find? h) (arguments hargs)
  access _ htarget hindex := .access htarget (hindex.elim fun _ _ _ he => he)
  slice _ htarget _ hstart _ hstop _ :=
    .slice htarget (hstart.elim fun _ _ _ he => he) (hstop.elim fun _ _ _ he => he)
  method _ hreceiver _ _ hargs := .method _ hreceiver (arguments hargs)
  expression h _ := ⟨.expression h, rfl⟩
  declaration _ hdecl hτ := by
    obtain ⟨hfresh, rfl⟩ := Scope.of_insert? hτ
    exact ⟨.declaration (annotated hdecl) hfresh, rfl⟩
  function _ _ _ hτ hparams hnodup _ _ _ hbody := by
    obtain ⟨hfresh, rfl⟩ := Scope.of_insert? hτ
    have hinner := block hbody
    rw [insertAll_params hnodup] at hinner
    refine ⟨.function _ _ hfresh ?_ hnodup hinner, rfl⟩
    exact hparams.elim fun _ _ _ h => h.elim fun _ _ _ hp => hp.elim fun _ _ _ he => he
  ret _ h := ⟨.ret _ (h.elim fun _ _ _ he => he), rfl⟩
  branch _ _ hcondition hyes hno := by
    refine ⟨.branch (hcondition.elim fun _ _ _ he => he) (block hyes) ?_, rfl⟩
    exact hno.elim fun _ _ _ h => h.elim fun _ _ _ hbody => block hbody
  loop _ _ hcondition hbody := ⟨.loop (hcondition.elim fun _ _ _ he => he) (block hbody), rfl⟩
  each _ _ _ _ hiterator _ hiterable _ hbody :=
    ⟨.each (annotated hiterator) hiterable (block hbody), rfl⟩
  brk _ := ⟨.brk _, rfl⟩
  cont _ := ⟨.cont _, rfl⟩
  par _ _ hbody := ⟨.par _ (block hbody), rfl⟩
  seq _ _ hbody := ⟨.seq (block hbody), rfl⟩
  client _ _ hτ _ hhost _ hport _ := by
    obtain ⟨hfresh, rfl⟩ := Scope.of_insert? hτ
    exact ⟨.client _ hfresh hhost hport, rfl⟩
  server _ _ hτ _ _ hhandler _ hdescription _ hhost _ hport _ := by
    obtain ⟨hfresh, rfl⟩ := Scope.of_insert? hτ
    exact ⟨.server _ hfresh (Scope.visible_of_find? hhandler) hdescription hhost hport, rfl⟩
  nil := .nil
  skip _ h := h
  cons hs _ hrest := by
    obtain ⟨hs, houter⟩ := hs
    exact .cons hs (houter ▸ hrest)

end lexical

-- A program that can be read is well scoped, from the 28 built-in functions on. All of these
-- have different names.
theorem parsed_programs_are_well_scoped {source : String} {p : Program}
    (h : parse source = .ok p) :
    builtins.length = 28 ∧ (builtins.map Prod.fst).Nodup ∧ Body.WellScoped [] builtins p := by
  obtain ⟨ts, eof, τ, -, -, hp⟩ := Grammar.Reading.of_parse lexical.closed h
  exact ⟨rfl, by decide, hp⟩

-- A text in which a name is declared again and again, each time in a block of its own.
def sameName : String :=
  "var x: list = [for (x: list in x) -> x]
  func f(x: number = f(x)) -> number \x7b return f(x) \x7d
  for (x: number in x) \x7b s_channel s \x7b f, s, \"h\", x \x7d \x7d"

set_option maxRecDepth 10000 in
theorem sameName_is_well_scoped :
    ∃ p, parse sameName = .ok p ∧
      builtins.length = 28 ∧ (builtins.map Prod.fst).Nodup ∧ Body.WellScoped [] builtins p := by
  obtain ⟨p, hp⟩ : ∃ p, parse sameName = .ok p := exists_of_isOk (by decide +kernel)
  exact ⟨p, hp, parsed_programs_are_well_scoped hp⟩

end Parlance
