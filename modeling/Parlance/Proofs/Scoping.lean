import Parlance.Proofs.Grammar.Stmt

namespace Parlance

-- Expressions whose names are declared where they stand, with the types that they keep. The
-- iterator of a comprehension is visible in what it runs over, but not in its first value.
inductive Expr.Scoped : Scope → Expr → Prop
  | constant {σ} (token) : Scoped σ (.constant token)
  | name {σ : Scope} {token ty} (h : σ.find? token.lexeme = some ty) : Scoped σ (.name token ty)
  | access {σ target index} (htarget : Scoped σ target) (hindex : Scoped σ index) :
      Scoped σ (.access target index)
  | slice {σ target start stop} (htarget : Scoped σ target) (hstart : ∀ e ∈ start, Scoped σ e)
      (hstop : ∀ e ∈ stop, Scoped σ e) : Scoped σ (.slice target start stop)
  | logical {σ left right} (op) (hleft : Scoped σ left) (hright : Scoped σ right) :
      Scoped σ (.logical op left right)
  | relational {σ left right} (op) (hleft : Scoped σ left) (hright : Scoped σ right) :
      Scoped σ (.relational op left right)
  | arithmetic {σ left right} (op) (hleft : Scoped σ left) (hright : Scoped σ right) :
      Scoped σ (.arithmetic op left right)
  | unary {σ operand} (op) (h : Scoped σ operand) : Scoped σ (.unary op operand)
  | call {σ : Scope} {callee ty args} (h : σ.find? callee.lexeme = some ty)
      (hargs : ∀ e ∈ args, Scoped σ e) : Scoped σ (.call callee ty args)
  | method {σ receiver args} (operation) (hreceiver : Scoped σ receiver)
      (hargs : ∀ e ∈ args, Scoped σ e) : Scoped σ (.method receiver operation args)
  | array {σ items} (bracket) (h : ∀ e ∈ items, Scoped σ e) : Scoped σ (.array bracket items)
  | dict {σ} {entries : List (String × Expr)} (brace) (h : ∀ e ∈ entries, Scoped σ e.2) :
      Scoped σ (.dict brace entries)
  | assign {σ target value} (equal) (htarget : Scoped σ target) (hvalue : Scoped σ value) :
      Scoped σ (.assign equal target value)
  | comprehension {σ τ : Scope} {iterator ty initial iterable projection} (bracket)
      (hinitial : ∀ e ∈ initial, Scoped σ.push e)
      (hiterator : σ.push.insert? iterator.lexeme ty = some τ) (hiterable : Scoped τ iterable)
      (hprojection : Scoped τ projection) :
      Scoped σ (.comprehension bracket iterator ty initial iterable projection)

mutual

-- Statements whose names are declared where they stand. Each declares at most one name, and
-- no block declares a name twice. The iterator of a loop is visible in its body only; the name
-- of a function in its own defaults and body; and that of a channel in its own operands.
inductive Stmt.Scoped : Scope → Stmt → Scope → Prop
  | expression {σ e} (h : Expr.Scoped σ e) : Stmt.Scoped σ (.expression e) σ
  | declaration {σ τ : Scope} {d : Declaration} (hinit : ∀ e ∈ d.init, Expr.Scoped σ e)
      (h : σ.insert? d.name.lexeme d.ty = some τ) : Stmt.Scoped σ (.declaration d) τ
  | function {σ τ : Scope} {name body} {params : List Param} (returns line)
      (h : σ.insert? name .func = some τ)
      (hparams : ∀ p ∈ params, ∀ e ∈ p.default, Expr.Scoped τ e)
      (hbody : Block.Scoped (τ.push.insertAll (params.map fun p => (p.name, p.ty))) body) :
      Stmt.Scoped σ (.function name returns params body line) τ
  | ret {σ value} (line) (h : ∀ e ∈ value, Expr.Scoped σ e) : Stmt.Scoped σ (.ret value line) σ
  | branch {σ : Scope} {condition yes no} (hcondition : Expr.Scoped σ condition)
      (hyes : Block.Scoped σ.push yes) (hno : ∀ body ∈ no, Block.Scoped σ.push body) :
      Stmt.Scoped σ (.branch condition yes no) σ
  | loop {σ : Scope} {condition body} (hcondition : Expr.Scoped σ condition)
      (hbody : Block.Scoped σ.push body) : Stmt.Scoped σ (.loop condition body) σ
  | each {σ : Scope} {iterator : Declaration} {iterable body}
      (hinit : ∀ e ∈ iterator.init, Expr.Scoped σ e) (hiterable : Expr.Scoped σ iterable)
      (hbody : Block.Scoped (σ.push.insertAll [(iterator.name.lexeme, iterator.ty)]) body) :
      Stmt.Scoped σ (.each iterator iterable body) σ
  | brk {σ} (line) : Stmt.Scoped σ (.brk line) σ
  | cont {σ} (line) : Stmt.Scoped σ (.cont line) σ
  | par {σ : Scope} {body} (line) (hbody : Block.Scoped σ.push body) :
      Stmt.Scoped σ (.par body line) σ
  | seq {σ : Scope} {body} (hbody : Block.Scoped σ.push body) : Stmt.Scoped σ (.seq body) σ
  | client {σ τ : Scope} {name host port} (line) (h : σ.insert? name .client = some τ)
      (hhost : Expr.Scoped τ host) (hport : Expr.Scoped τ port) :
      Stmt.Scoped σ (.client name host port line) τ
  | server {σ τ : Scope} {name handler ty description host port} (line)
      (h : σ.insert? name .server = some τ) (hhandler : τ.find? handler.lexeme = some ty)
      (hdescription : Expr.Scoped τ description) (hhost : Expr.Scoped τ host)
      (hport : Expr.Scoped τ port) :
      Stmt.Scoped σ (.server name handler description host port line) τ

inductive Block.Scoped : Scope → List Stmt → Prop
  | nil (σ) : Block.Scoped σ []
  | cons {σ τ s rest} (head : Stmt.Scoped σ s τ) (tail : Block.Scoped τ rest) :
      Block.Scoped σ (s :: rest)

end

-- The judgement of scopes, which looks at neither tokens nor depths.
def scoping : Grammar.Reading where
  expr σ _ _ _ e := e.Scoped σ
  suffixed σ _ _ e := e.Scoped σ
  stmt σ _ _ s τ := s.Scoped σ τ
  body σ _ _ body _ := Block.Scoped σ body

namespace scoping

open Grammar

theorem block {d : Nat} {σ : Scope} {ts : List Token} {body : List Stmt}
    (h : scoping.Block σ d ts body) : Block.Scoped σ body :=
  h.elim fun _ _ _ hbody => hbody.choose_spec

theorem arguments {d : Nat} {σ : Scope} {ts : List Token} {args : List Expr}
    (h : scoping.Arguments σ d ts args) : ∀ e ∈ args, e.Scoped σ :=
  h.elim fun _ _ _ hargs => hargs.elim fun _ _ _ he => he

theorem annotated {σ : Scope} {ts : List Token} {name : Token} {ty : Ty} {init : Option Expr}
    (h : Annotated (fun _ e => e.Scoped σ) ts name ty init) : ∀ e ∈ init, e.Scoped σ :=
  h.elim fun _ _ _ he => he

theorem closed : scoping.Closed where
  tighter h := h
  assign _ htarget _ _ hvalue := .assign _ htarget hvalue
  binary {_ _ r _ _ _ _ _} hleft _ hright := by
    cases r with
    | logicOr | logicAnd => exact .logical _ hleft hright
    | equality | comparison => exact .relational _ hleft hright
    | _ => exact .arithmetic _ hleft hright
  unary _ _ h := .unary _ h
  constant _ _ := .constant _
  grouped _ h := h.elim fun _ _ _ he => he
  array _ _ h _ := .array _ (h.elim fun _ _ _ he => he)
  dict _ _ h _ := .dict _ (h.elim fun _ _ _ hentry => hentry.elim fun _ _ _ he => he)
  comprehension _ _ _ _ _ hiterator hτ _ hiterable _ _ hprojection _ :=
    .comprehension _ (annotated hiterator) hτ hiterable hprojection
  primary h := h
  name _ _ h := .name h
  call _ _ h hargs := .call h (arguments hargs)
  access _ htarget hindex := .access htarget (hindex.elim fun _ _ _ he => he)
  slice _ htarget _ hstart _ hstop _ :=
    .slice htarget (hstart.elim fun _ _ _ he => he) (hstop.elim fun _ _ _ he => he)
  method _ hreceiver _ _ hargs := .method _ hreceiver (arguments hargs)
  expression h _ := .expression h
  declaration _ hdecl hτ := .declaration (annotated hdecl) hτ
  function _ _ _ hτ hparams _ _ _ _ hbody :=
    .function _ _ hτ
      (hparams.elim fun _ _ _ h => h.elim fun _ _ _ hp => hp.elim fun _ _ _ he => he) (block hbody)
  ret _ h := .ret _ (h.elim fun _ _ _ he => he)
  branch _ _ hcondition hyes hno :=
    .branch (hcondition.elim fun _ _ _ he => he) (block hyes)
      (hno.elim fun _ _ _ h => h.elim fun _ _ _ hbody => block hbody)
  loop _ _ hcondition hbody := .loop (hcondition.elim fun _ _ _ he => he) (block hbody)
  each _ _ _ _ hiterator _ hiterable _ hbody :=
    .each (annotated hiterator) hiterable (block hbody)
  brk _ := .brk _
  cont _ := .cont _
  par _ _ hbody := .par _ (block hbody)
  seq _ _ hbody := .seq (block hbody)
  client _ _ hτ _ hhost _ hport _ := .client _ hτ hhost hport
  server _ _ hτ _ _ hhandler _ hdescription _ hhost _ hport _ :=
    .server _ hτ hhandler hdescription hhost hport
  nil := .nil _
  skip _ h := h
  cons hs _ hrest := .cons hs hrest

end scoping

-- All programs that can be read are scoped.
theorem scoped_of_parse {source : String} {p : Program} (h : parse source = .ok p) :
    Block.Scoped Scope.root p := by
  obtain ⟨ts, eof, τ, -, -, hp⟩ := Grammar.Reading.of_parse scoping.closed h
  exact hp

end Parlance
