import Parlance.Host.Local
import Parlance.Proofs.Scoping.Variables

namespace Parlance

-- A name that no built-in function has.
def isUser (name : String) : Bool :=
  (Builtin.ofName? name).isNone

namespace Expr

-- The function of the program that a call looks up when it is evaluated.
def userCall? (e : Expr) : Option String :=
  e.callName?.filter isUser

-- A call of a name that stands for a function where it is written.
def isResolved : Expr → Bool
  | call _ ty _ => ty == .func
  | _ => false

end Expr

-- Which of the functions that are looked up at a place have to be known there, given the
-- expression or the handler with their name.
structure Demand where
  call : Expr → Option String
  handler : Scope → String → Option String

namespace Demand

def all : Demand where
  call := Expr.userCall?
  handler _ name := some name

-- Those that are not found by the scopes of the text: functions that are called with a dot,
-- and those whose name stands for something else there.
def unresolved : Demand where
  call e := if e.isResolved then none else e.userCall?
  handler σ name := if σ.find? name = some .func ∧ isUser name then none else some name

end Demand

def Expr.certain (d : Demand) (known : List String) (e : Expr) : Bool :=
  e.parts.all fun x => (d.call x).all known.contains

namespace Stmt

-- The name that a statement declares in its block.
def declares? : Stmt → Option (String × Ty)
  | declaration d => some (d.name.lexeme, d.ty)
  | function name _ _ _ _ => some (name, .func)
  | client name _ _ _ => some (name, .client)
  | server name _ _ _ _ _ => some (name, .server)
  | _ => none

def scopeAfter (σ : Scope) (s : Stmt) : Scope :=
  σ.insertAll s.declares?.toList

mutual

-- The functions that have been defined for certain once a statement has come to its end.
def settles : Stmt → List String
  | function name _ _ _ _ => [name]
  | seq body => settlesAll body
  | _ => []

def settlesAll : List Stmt → List String
  | [] => []
  | s :: rest => settlesAll rest ++ s.settles

end

mutual

-- All functions in demand are among those that have been defined for certain: by a statement
-- before, in the same block or in one around it, or by a function around it.
def certain (d : Demand) (σ : Scope) (known : List String) : Stmt → Bool
  | function name returns params body line =>
    (params.filterMap Param.default).all (Expr.certain d (name :: known)) &&
      certainAll d
        ((scopeAfter σ (function name returns params body line)).push.insertAll
          (params.map fun p => (p.name, p.ty)))
        (name :: known) body
  | branch condition yes no =>
    condition.certain d known &&
      (certainAll d σ.push known yes && certainElse d σ.push known no)
  | loop condition body => condition.certain d known && certainAll d σ.push known body
  | each iterator iterable body =>
    iterable.certain d known &&
      certainAll d (σ.push.insertAll [(iterator.name.lexeme, iterator.ty)]) known body
  | seq body => certainAll d σ.push known body
  | server name handler description host port line =>
    (d.handler (scopeAfter σ (server name handler description host port line))
        handler.lexeme).all known.contains &&
      [description, host, port].all (Expr.certain d known)
  | s => s.operands.all (Expr.certain d known)

def certainAll (d : Demand) (σ : Scope) (known : List String) : List Stmt → Bool
  | [] => true
  | s :: rest =>
    s.certain d σ known && certainAll d (scopeAfter σ s) (s.settles ++ known) rest

def certainElse (d : Demand) (σ : Scope) (known : List String) : Option (List Stmt) → Bool
  | none => true
  | some body => certainAll d σ known body

end

end Stmt

-- Everything that is looked up at run time only has been defined for certain.
def Program.certain (p : Program) : Bool :=
  Stmt.certainAll .unresolved Scope.root [] p

namespace Expr

variable {d : Demand} {known : List String}

theorem certain_iff {e : Expr} : e.certain d known = true ↔
    (∀ name, d.call e = some name → name ∈ known) ∧
      ∀ x ∈ e.children, x.certain d known = true := by
  have hall : ∀ o : Option String,
      o.all known.contains = true ↔ ∀ name, o = some name → name ∈ known := by
    intro o
    cases o <;> simp
  simp only [certain, List.all_eq_true, hall]
  constructor
  · intro h
    exact ⟨h e (mem_parts_self e), fun x hx t ht => h t (parts_subset hx t ht)⟩
  · rintro ⟨hself, hchildren⟩ t ht
    rcases mem_parts.mp ht with rfl | ⟨x, hx, ht⟩
    · exact hself
    · exact hchildren x hx t ht

theorem certain_operand {x e : Expr} (h : e.certain d known = true) (hx : x ∈ e.operands) :
    x.certain d known = true := by
  refine List.all_eq_true.mpr fun t ht => ?_
  exact List.all_eq_true.mp h t (parts_subset_of_operand hx t ht)

end Expr

namespace Stmt

variable {d : Demand} {σ : Scope} {known : List String} {s : Stmt}

theorem certain_operand {e : Expr} (h : s.certain d σ known = true) (he : e ∈ s.operands) :
    e.certain d known = true := by
  cases s with
  | function | seq => cases he
  | branch | loop | each =>
    rw [certain, Bool.and_eq_true] at h
    cases List.mem_singleton.mp he
    exact h.1
  | server =>
    rw [certain, Bool.and_eq_true] at h
    exact List.all_eq_true.mp h.2 e he
  | _ => exact List.all_eq_true.mp h e he

theorem certain_block {body : List Stmt} (h : s.certain d σ known = true)
    (hbody : body ∈ s.blocks) : ∃ τ, certainAll d τ known body = true := by
  cases s with
  | branch condition yes no =>
    rw [certain, Bool.and_eq_true, Bool.and_eq_true] at h
    rcases List.mem_cons.mp hbody with rfl | hbody
    · exact ⟨_, h.2.1⟩
    · cases Option.mem_toList.mp hbody
      exact ⟨_, h.2.2⟩
  | loop | each =>
    rw [certain, Bool.and_eq_true] at h
    cases List.mem_singleton.mp hbody
    exact ⟨_, h.2⟩
  | seq =>
    cases List.mem_singleton.mp hbody
    exact ⟨_, h⟩
  | _ => cases hbody

theorem certain_function {f : Function} (h : f.definition.certain d σ known = true) :
    (∀ p ∈ f.params, ∀ e, p.default = some e → e.certain d (f.name :: known) = true) ∧
      ∃ τ, certainAll d τ (f.name :: known) f.body = true := by
  rw [Function.definition, certain, Bool.and_eq_true] at h
  refine ⟨fun p hp e he => ?_, _, h.2⟩
  exact List.all_eq_true.mp h.1 e (List.mem_filterMap.mpr ⟨p, hp, he⟩)

end Stmt

namespace Scope

-- All functions that can be seen at a place are known there, unless they are built in.
def Shows (σ : Scope) (known : List String) : Prop :=
  ∀ x, σ.find? x = some .func → isUser x = true → x ∈ known

namespace Shows

variable {σ τ : Scope} {known more : List String}

theorem root : Scope.root.Shows [] := by
  intro x hx huser
  have hbuiltin : ∀ s ∈ signatures, isUser s.1 = false := by decide
  obtain ⟨s, hs, heq⟩ := List.mem_map.mp (mem_of_find?_root hx)
  cases heq
  exact absurd huser (by simp [hbuiltin s hs])

theorem mono (h : σ.Shows known) (hmore : ∀ x ∈ known, x ∈ more) : σ.Shows more :=
  fun x hx huser => hmore x (h x hx huser)

theorem push (h : σ.Shows known) : σ.push.Shows known :=
  h

theorem insert? {name : String} {ty : Ty} (h : σ.Shows known) (hτ : σ.insert? name ty = some τ)
    (hty : ty = .func → name ∈ known) : τ.Shows known := by
  intro x hx huser
  rw [find?_insert? hτ] at hx
  split at hx
  · next heq =>
    cases hx
    exact heq ▸ hty rfl
  · exact h x hx huser

theorem insertAll {layer : Layer} (h : σ.Shows known) (hlayer : ∀ entry ∈ layer, entry.2 ≠ .func) :
    (σ.insertAll layer).Shows known := by
  induction layer generalizing σ with
  | nil => exact h
  | cons entry layer ih =>
    obtain ⟨hentry, hlayer⟩ := List.forall_mem_cons.mp hlayer
    refine ih ?_ hlayer
    cases hinsert : σ.insert? entry.1 entry.2 with
    | none => exact h
    | some τ => exact h.insert? hinsert fun hty => absurd hty hentry

end Shows

end Scope

-- Parallel blocks hold nothing but expressions.
def Stmt.Orderly (s : Stmt) : Prop :=
  ∀ body line, .par body line ∈ s.parts → body.all Stmt.isExpression = true

theorem Stmt.Orderly.of_mem_body {s t : Stmt} {body : List Stmt} (h : s.Orderly)
    (hbody : body ∈ s.bodies) (ht : t ∈ body) : t.Orderly :=
  fun workers line hmem => h workers line (parts_subset hbody ht _ hmem)

theorem Stmt.orderly_of_compile {source : String} {p : Program} (h : compile source = .ok p) :
    ∀ s ∈ p, s.Orderly := by
  intro s hs body line hmem
  obtain ⟨c, hplaced⟩ := (placed_of_compile h s hs).of_mem_parts hmem
  cases hplaced with
  | par _ hbody => exact hbody

-- In a parallel block without definitions, everything is known from before.
theorem Stmt.certainAll_of_workers {d : Demand} {σ : Scope} {known : List String}
    {body : List Stmt} (h : body.all Stmt.isExpression = true) :
    certainAll d σ known body = (Eval.workers body).all (Expr.certain d known) := by
  induction body with
  | nil => rfl
  | cons s body ih =>
    obtain ⟨hs, hbody⟩ := Bool.and_eq_true_iff.mp h
    cases s with
    | expression e =>
      have hworkers : Eval.workers (.expression e :: body) = e :: Eval.workers body := rfl
      have hhead : (expression e).certain d σ known = (e.certain d known && true) := rfl
      have hscope : scopeAfter σ (expression e) = σ := rfl
      have hsettles : (expression e).settles = [] := rfl
      rw [hworkers, List.all_cons, ← ih hbody, certainAll, hhead, hscope, hsettles, Bool.and_true,
        List.nil_append]
    | _ => cases hs

-- What is looked up by the scopes of the text is known wherever all functions that can be
-- seen are.
def Expr.Resolves (σ : Scope) (e : Expr) : Prop :=
  ∀ known, σ.Shows known → e.certain .unresolved known = true → e.certain .all known = true

theorem Expr.Resolves.of_children {σ : Scope} {e : Expr} (hunresolved : e.isResolved = false)
    (h : ∀ x ∈ e.children, x.Resolves σ) : e.Resolves σ := by
  intro known hshows he
  obtain ⟨hself, hchildren⟩ := certain_iff.mp he
  refine certain_iff.mpr ⟨fun name hname => hself name ?_, fun x hx => ?_⟩
  · simp only [Demand.unresolved, hunresolved, Bool.false_eq_true, ite_false]
    exact hname
  · exact h x hx known hshows (hchildren x hx)

theorem Expr.Resolves.outside {σ τ : Scope} {e : Expr} (h : e.Resolves τ)
    (hshows : ∀ known, σ.Shows known → τ.Shows known) : e.Resolves σ :=
  fun known hσ => h known (hshows known hσ)

theorem Expr.Resolves.call {σ : Scope} {callee : Token} {ty : Ty} {args : List Expr}
    (hfind : σ.find? callee.lexeme = some ty) (hargs : ∀ x ∈ args, x.Resolves σ) :
    (Expr.call callee ty args).Resolves σ := by
  by_cases hty : ty = .func
  · subst hty
    intro known hshows he
    obtain ⟨-, hchildren⟩ := certain_iff.mp he
    refine certain_iff.mpr ⟨fun name hname => ?_, fun x hx => ?_⟩
    · have hfilter : (some callee.lexeme).filter isUser = some name := hname
      obtain ⟨heq, huser⟩ := Option.filter_eq_some_iff.mp hfilter
      cases heq
      exact hshows _ hfind huser
    · exact hargs x hx known hshows (hchildren x hx)
  · exact .of_children (by simpa [isResolved] using hty) hargs

theorem Expr.Resolves.all {σ : Scope} {es : List Expr} {known : List String}
    (h : ∀ e ∈ es, e.Resolves σ) (hσ : σ.Shows known)
    (hes : es.all (Expr.certain .unresolved known) = true) :
    es.all (Expr.certain .all known) = true :=
  List.all_eq_true.mpr fun e he => h e he known hσ (List.all_eq_true.mp hes e he)

-- A statement that leads to another scope, where all functions that can be seen are known
-- after it, and in which what is looked up by scopes is known.
structure Stmt.Resolves (σ : Scope) (s : Stmt) (τ : Scope) : Prop where
  scope : τ = s.scopeAfter σ
  shows : ∀ known, σ.Shows known → τ.Shows (s.settles ++ known)
  certain : ∀ known, σ.Shows known → s.Orderly → s.certain .unresolved σ known = true →
    s.certain .all σ known = true

def Stmt.ResolvesAll (σ : Scope) (body : List Stmt) : Prop :=
  ∀ known, σ.Shows known → (∀ s ∈ body, s.Orderly) →
    Stmt.certainAll .unresolved σ known body = true → Stmt.certainAll .all σ known body = true

def resolving : Grammar.Reading where
  expr σ _ _ _ e := e.Resolves σ
  suffixed σ _ _ e := e.Resolves σ
  stmt σ _ _ s τ := s.Resolves σ τ
  body σ _ _ body _ := Stmt.ResolvesAll σ body

namespace resolving

open Grammar

variable {σ τ : Scope} {d : Nat} {ts : List Token}

theorem arguments {args : List Expr} (h : resolving.Arguments σ d ts args) :
    ∀ e ∈ args, e.Resolves σ :=
  h.elim fun _ _ _ hargs => hargs.elim fun _ _ _ he => he

theorem block {body : List Stmt} (h : resolving.Block σ d ts body) : Stmt.ResolvesAll σ body :=
  h.elim fun _ _ _ hbody => hbody.choose_spec

theorem ne_func {s : String} {ty : Ty} (h : Ty.ofKeyword? s = some ty) : ty ≠ .func := by
  rintro rfl
  unfold Ty.ofKeyword? at h
  split at h <;> cases h

theorem annotated {value : List Token → Expr → Prop} {name : Token} {ty : Ty}
    {init : Option Expr} (h : Annotated value ts name ty init) : ty ≠ .func := by
  cases h with
  | intro _ _ _ hty _ => exact ne_func hty

theorem parameter {value : List Token → Expr → Prop} {p : Param} (h : Parameter value ts p) :
    p.ty ≠ .func := by
  cases h with
  | intro h => exact annotated h

theorem eq_insertAll {name : String} {ty : Ty} (h : σ.insert? name ty = some τ) :
    τ = σ.insertAll [(name, ty)] := by
  simp [Scope.insertAll, h]

-- A statement that defines no function and has no blocks.
theorem plain {s : Stmt} (hτ : τ = s.scopeAfter σ) (hsettles : s.settles = [])
    (hshows : ∀ known, σ.Shows known → τ.Shows known)
    (hcertain : ∀ demand known,
      s.certain demand σ known = s.operands.all (Expr.certain demand known))
    (hs : ∀ e ∈ s.operands, e.Resolves σ) : s.Resolves σ τ where
  scope := hτ
  shows known hσ := by
    rw [hsettles]
    exact hshows known hσ
  certain known hσ _ h := by
    rw [hcertain] at h ⊢
    exact Expr.Resolves.all hs hσ h

theorem pair {left right : Expr} (hleft : left.Resolves σ) (hright : right.Resolves σ) :
    ∀ e ∈ [left, right], e.Resolves σ :=
  List.forall_mem_cons.mpr ⟨hleft, List.forall_mem_singleton.mpr hright⟩

theorem closed : resolving.Closed where
  tighter h := h
  assign _ htarget _ _ hvalue := .of_children rfl (pair htarget hvalue)
  binary {_ _ r _ _ _ _ _} hleft _ hright := by
    cases r <;> exact .of_children rfl (pair hleft hright)
  unary _ _ h := .of_children rfl (List.forall_mem_singleton.mpr h)
  constant _ _ := .of_children rfl (List.forall_mem_nil _)
  grouped _ h := h.elim fun _ _ _ he => he
  array _ _ h _ := .of_children rfl (h.elim fun _ _ _ he => he)
  dict _ _ h _ := by
    refine .of_children rfl fun x hx => ?_
    obtain ⟨entry, hentry, rfl⟩ := List.mem_map.mp hx
    exact h.elim (fun _ _ _ hentry => hentry.elim fun _ _ _ he => he) entry hentry
  comprehension {σ τ _ _ _ _ _ _ _ _ _ _ _ _ _ _ _ _ _} _ _ _ _ _ hiterator hτ _ hiterable _ _
      hprojection _ := by
    have hshows : ∀ known, σ.Shows known → τ.Shows known := fun known hσ =>
      hσ.push.insert? hτ fun hty => absurd hty (annotated hiterator)
    exact .of_children rfl (pair (hiterable.outside hshows) (hprojection.outside hshows))
  primary h := h
  name _ _ _ := .of_children rfl (List.forall_mem_nil _)
  call _ _ h hargs := .call h (arguments hargs)
  access _ htarget hindex := .of_children rfl (pair htarget (hindex.elim fun _ _ _ he => he))
  slice _ htarget _ hstart _ hstop _ := by
    refine .of_children rfl (List.forall_mem_cons.mpr ⟨htarget, fun x hx => ?_⟩)
    rcases List.mem_append.mp hx with hx | hx
    · exact hstart.elim (fun _ _ _ he => he) x (Option.mem_toList.mp hx)
    · exact hstop.elim (fun _ _ _ he => he) x (Option.mem_toList.mp hx)
  method _ hreceiver _ _ hargs :=
    .of_children rfl (List.forall_mem_cons.mpr ⟨hreceiver, arguments hargs⟩)
  expression h _ :=
    plain rfl rfl (fun _ hσ => hσ) (fun _ _ => rfl) (List.forall_mem_singleton.mpr h)
  declaration _ hdecl hτ := by
    refine plain (eq_insertAll hτ) rfl (fun _ hσ => ?_) (fun _ _ => rfl) fun e he => ?_
    · exact hσ.insert? hτ fun hty => absurd hty (annotated hdecl)
    · exact hdecl.elim (fun _ _ _ he => he) e (Option.mem_toList.mp he)
  function {σ τ _ keyword name _ params _ _ returns _ body} _ _ _ hτ hparams _ _ _ _ hbody := by
    have hshows : ∀ known, σ.Shows known → τ.Shows (name.lexeme :: known) := fun known hσ =>
      (hσ.mono fun _ hx => List.mem_cons_of_mem _ hx).insert? hτ fun _ => List.mem_cons_self
    have hscope : τ = (Stmt.function name.lexeme returns params body keyword.line).scopeAfter σ :=
      eq_insertAll hτ
    have hdefaults : ∀ e ∈ params.filterMap Param.default, e.Resolves τ := by
      intro e he
      obtain ⟨p, hp, he⟩ := List.mem_filterMap.mp he
      exact hparams.elim
        (fun _ _ _ h => h.elim fun _ _ _ hp => hp.elim fun _ _ _ he => he) p hp e he
    have htypes : ∀ entry ∈ params.map fun p => (p.name, p.ty), entry.2 ≠ .func := by
      intro entry hentry
      obtain ⟨p, hp, rfl⟩ := List.mem_map.mp hentry
      exact hparams.elim (fun _ _ _ h => h.elim fun _ _ _ hp => parameter hp) p hp
    refine ⟨hscope, hshows, fun known hσ hord h => ?_⟩
    rw [Stmt.certain, Bool.and_eq_true, ← hscope] at h ⊢
    refine ⟨Expr.Resolves.all hdefaults (hshows known hσ) h.1, ?_⟩
    exact block hbody _ ((hshows known hσ).push.insertAll htypes)
      (fun s hs => hord.of_mem_body List.mem_cons_self hs) h.2
  ret _ h := plain rfl rfl (fun _ hσ => hσ) (fun _ _ => rfl) fun e he =>
    h.elim (fun _ _ _ he => he) e (Option.mem_toList.mp he)
  branch {_ _ _ _ condition _ yes _ no} _ _ hcondition hyes hno := by
    refine ⟨rfl, fun known hσ => hσ, fun known hσ hord h => ?_⟩
    rw [Stmt.certain, Bool.and_eq_true, Bool.and_eq_true] at h ⊢
    refine ⟨hcondition.elim (fun _ _ _ he => he) known hσ h.1, ?_, ?_⟩
    · exact block hyes known hσ.push (fun s hs => hord.of_mem_body List.mem_cons_self hs) h.2.1
    · cases no with
      | none => rfl
      | some body =>
        have hbody := hno.elim (fun _ _ _ h => h.elim fun _ _ _ hbody => block hbody) body rfl
        refine hbody known hσ.push (fun s hs => hord.of_mem_body ?_ hs) h.2.2
        simp [Stmt.bodies, Stmt.blocks]
  loop _ _ hcondition hbody := by
    refine ⟨rfl, fun known hσ => hσ, fun known hσ hord h => ?_⟩
    rw [Stmt.certain, Bool.and_eq_true] at h ⊢
    refine ⟨hcondition.elim (fun _ _ _ he => he) known hσ h.1, ?_⟩
    exact block hbody known hσ.push (fun s hs => hord.of_mem_body List.mem_cons_self hs) h.2
  each _ _ _ _ hiterator _ hiterable _ hbody := by
    refine ⟨rfl, fun known hσ => hσ, fun known hσ hord h => ?_⟩
    rw [Stmt.certain, Bool.and_eq_true] at h ⊢
    refine ⟨hiterable known hσ h.1, ?_⟩
    refine block hbody known (hσ.push.insertAll (List.forall_mem_singleton.mpr ?_))
      (fun s hs => hord.of_mem_body List.mem_cons_self hs) h.2
    exact annotated hiterator
  brk _ := plain rfl rfl (fun _ hσ => hσ) (fun _ _ => rfl) (List.forall_mem_nil _)
  cont _ := plain rfl rfl (fun _ hσ => hσ) (fun _ _ => rfl) (List.forall_mem_nil _)
  par {σ _ keyword _ body} _ _ hbody := by
    refine ⟨rfl, fun known hσ => hσ, fun known hσ hord h => ?_⟩
    have hworkers := hord body keyword.line (Stmt.mem_parts_self _)
    have hpar : ∀ demand, (Stmt.par body keyword.line).certain demand σ known =
        Stmt.certainAll demand σ.push known body := fun _ =>
      (Stmt.certainAll_of_workers hworkers).symm
    rw [hpar] at h ⊢
    exact block hbody known hσ.push (fun s hs => hord.of_mem_body List.mem_cons_self hs) h
  seq _ _ hbody := by
    refine ⟨rfl, fun known hσ => hσ.mono fun _ hx => List.mem_append_right _ hx,
      fun known hσ hord h => ?_⟩
    rw [Stmt.certain] at h ⊢
    exact block hbody known hσ.push (fun s hs => hord.of_mem_body List.mem_cons_self hs) h
  client {σ τ _ _ _ _ _ _ _ _ _ _} _ _ hτ _ hhost _ hport _ := by
    have hshows : ∀ known, σ.Shows known → τ.Shows known := fun known hσ =>
      hσ.insert? hτ (by rintro ⟨⟩)
    exact plain (eq_insertAll hτ) rfl hshows (fun _ _ => rfl)
      (pair (hhost.outside hshows) (hport.outside hshows))
  server {σ τ _ keyword name _ handler _ _ _ description _ _ host _ _ port _} _ _ hτ _ _ hhandler _
      hdescription _ hhost _ hport _ := by
    have hshows : ∀ known, σ.Shows known → τ.Shows known := fun known hσ =>
      hσ.insert? hτ (by rintro ⟨⟩)
    have hscope : τ = (Stmt.server name.lexeme handler description host port
        keyword.line).scopeAfter σ := eq_insertAll hτ
    refine ⟨hscope, hshows, fun known hσ _ h => ?_⟩
    rw [Stmt.certain, Bool.and_eq_true, ← hscope] at h ⊢
    refine ⟨?_, Expr.Resolves.all (List.forall_mem_cons.mpr ⟨hdescription.outside hshows,
      pair (hhost.outside hshows) (hport.outside hshows)⟩) hσ h.2⟩
    by_cases hseen : τ.find? handler.lexeme = some .func ∧ isUser handler.lexeme = true
    · exact List.contains_iff_mem.mpr (hshows known hσ _ hseen.1 hseen.2)
    · simp only [Demand.unresolved, hseen, ite_false] at h
      exact h.1
  nil := fun _ _ _ h => h
  skip _ h := h
  cons hs _ hrest := by
    intro known hσ hord h
    rw [Stmt.certainAll, Bool.and_eq_true] at h ⊢
    obtain ⟨hord, hords⟩ := List.forall_mem_cons.mp hord
    refine ⟨hs.certain known hσ hord h.1, ?_⟩
    rw [← hs.scope] at h ⊢
    exact hrest _ (hs.shows known hσ) hords h.2

end resolving

-- In an accepted program all functions are certain if those are that the scopes of its text do
-- not find.
theorem certain_of_compile {source : String} {p : Program} (hp : compile source = .ok p)
    (h : p.certain = true) : Stmt.certainAll .all Scope.root [] p = true := by
  obtain ⟨ts, eof, τ, -, -, hread⟩ :=
    Grammar.Reading.of_parse resolving.closed (compile_eq_ok.mp hp).1
  exact hread [] .root (Stmt.orderly_of_compile hp) h

-- The functions of a world.
def World.Knows (known : List String) (w : World) : Prop :=
  ∀ x ∈ known, (w.functions.get? x).isSome = true

def RuntimeFault.isUndefinedFunction : RuntimeFault → Bool
  | .undefinedFunction _ => true
  | _ => false

-- Programs whose functions are defined before they are looked up. A context is the list of
-- functions that have been defined for certain.
def resolution : Discipline (List String) where
  expr _ known e := e.certain .all known = true
  stmt _ known s known' := known' = s.settles ++ known ∧ ∃ σ, s.certain .all σ known = true
  call _ _ := True
  inside _ known := known
  project known _ := known
  holds _ known _ w := w.Knows known
  func f w := (w.functions.get? f.name).isSome = true ∧
    ∃ σ known, w.Knows known ∧ f.definition.certain .all σ known = true
  signal _ _ := True
  ends _ := True
  allowed := Stop.Avoids RuntimeFault.isUndefinedFunction

namespace resolution

variable {n : Nat} {known known' : List String} {w t : World}

theorem block {σ : Scope} {body : List Stmt} (h : Stmt.certainAll .all σ known body = true) :
    resolution.Block n known body := by
  induction body generalizing σ known with
  | nil => exact .nil known
  | cons s body ih =>
    rw [Stmt.certainAll, Bool.and_eq_true] at h
    exact .cons ⟨rfl, σ, h.1⟩ (ih h.2)

-- Statements lead to the functions that they settle.
theorem eq_of_leads {body : List Stmt} (h : resolution.Leads n known body known') :
    known' = Stmt.settlesAll body ++ known := by
  induction h with
  | nil known => rfl
  | cons head _ ih => rw [ih, head.1, Stmt.settlesAll, List.append_assoc]

theorem knows_moves (h : w.Knows known)
    (hmoves : ∀ name, (w.functions.get? name).isSome → (t.functions.get? name).isSome) :
    t.Knows known :=
  fun x hx => hmoves x (h x hx)

theorem body {σ : Scope} {body : List Stmt} (h : Stmt.certainAll .all σ known body = true) :
    resolution.Body n known body := by
  cases n with
  | zero => exact Stop.avoids_outOfFuel
  | succ n => exact block h

-- A function has been defined for certain when it is called.
theorem enters {f : Function} {env : Nat} (hf : resolution.func f w ∨ f = idle) :
    ∃ known, resolution.Enters n f env w known known := by
  rcases hf with ⟨hself, σ, known, hknown, hcertain⟩ | rfl
  · obtain ⟨hdefaults, τ, hbody⟩ := Stmt.certain_function hcertain
    exact ⟨f.name :: known,
      { start := List.forall_mem_cons.mpr ⟨hself, hknown⟩
        default := hdefaults
        param := fun _ _ _ _ ht => ht
        bound := fun _ _ ht _ => ht
        body := body hbody
        ends := fun _ _ => trivial }⟩
  · exact ⟨[],
      { start := List.forall_mem_nil _
        default := fun _ hp => nomatch hp
        param := fun _ _ _ _ ht => ht
        bound := fun _ _ ht _ => ht
        body := body (σ := Scope.root) rfl
        ends := fun _ _ => trivial }⟩

theorem knows_call {e : Expr} {name : String} (he : e.certain .all known = true)
    (hname : e.userCall? = some name) (h : w.Knows known) :
    (w.functions.get? name).isSome = true :=
  h name ((Expr.certain_iff.mp he).1 name hname)

theorem knows_handler {σ : Scope} {name : String} {handler : Token} {description host port : Expr}
    {line : Nat}
    (hs : (Stmt.server name handler description host port line).certain .all σ known = true)
    (h : w.Knows known) : (w.functions.get? handler.lexeme).isSome = true := by
  rw [Stmt.certain, Bool.and_eq_true] at hs
  exact h _ (List.contains_iff_mem.mp hs.1)

theorem lawful : resolution.Lawful where
  operand he x hx := Expr.certain_operand he hx
  projection {n c bracket iterator ty initial iterable projection} he :=
    (Expr.certain_iff.mp he).2 projection (by simp [Expr.children])
  value hs e he := by
    obtain ⟨-, σ, hs⟩ := hs
    exact Stmt.certain_operand hs he
  block hs body hbody := by
    obtain ⟨-, σ, hs⟩ := hs
    obtain ⟨τ, hbody⟩ := Stmt.certain_block hs hbody
    exact block hbody
  stable h hm := knows_moves h hm.functions
  opens _ _ _ h := h
  iterates _ _ h := h
  projects _ _ h := h
  follows {n k c s c' env w} hs hnone hfunction hfinished h := by
    obtain ⟨rfl, -⟩ := hs
    cases s with
    | seq body =>
      obtain ⟨known', scope, t, hleads, ht, rfl⟩ := hfinished body rfl
      rw [eq_of_leads hleads] at ht
      exact ht
    | function => cases hfunction
    | _ => exact h
  declares {n k c s c' env w x} v hs hx h := by
    obtain ⟨rfl, -⟩ := hs
    cases s with
    | declaration | client | server => exact h
    | _ => cases hx
  defines {n k c name returns params body line c' env w} hs h := by
    obtain ⟨rfl, σ, hcertain⟩ := hs
    have hmoves := w.moves_learned env ⟨name, returns, params, body, line⟩
    have hself : ((w.learned ⟨name, returns, params, body, line⟩).functions.get? name).isSome := by
      simp [World.learned]
    have hknown := knows_moves h hmoves.functions
    exact ⟨⟨hself, σ, c, hknown, hcertain⟩, List.forall_mem_cons.mpr ⟨hself, hknown⟩⟩
  binds _ hfunctions hf := by
    obtain ⟨hself, σ, known, hknown, hcertain⟩ := hf
    exact ⟨hfunctions _ hself, σ, known, knows_moves hknown hfunctions, hcertain⟩
  enters _ _ hf _ := by
    obtain ⟨known, hE⟩ := enters hf
    exact ⟨known, known, hE⟩
  serves _ _ _ := ⟨[], fun _ => List.forall_mem_nil _, trivial⟩
  waits _ := Stop.avoids_outOfFuel
  crashes _ _ := Stop.avoids_crash
  ordinary := Stop.avoids_of_ordinary fun cause h => by cases cause <;> first | rfl | cases h
  placed h line _ := Stop.avoids_orLine h line
  fails h := by
    cases h with
    | @unknown n k c e name env w he hname h huser hnone =>
      have hcall : e.userCall? = some name := by
        rw [Expr.userCall?, hname, Option.filter_some, isUser, huser]
        rfl
      have hknown := knows_call he hcall h
      rw [hnone] at hknown
      cases hknown
    | unhandled hs h hnone =>
      obtain ⟨-, σ, hs⟩ := hs
      have hknown := knows_handler hs h
      rw [hnone] at hknown
      cases hknown
    | _ => exact Stop.avoids_runtime rfl

-- Every function that is called, and every one that a server is to answer with, is there when
-- the call or the statement is evaluated.
def contract : Contract where
  expr _ _ e w _ := e.userCall?.all fun name => (w.functions.get? name).isSome
  stmt _ _ s w _ :=
    match s with
    | .server _ handler _ _ _ _ => (w.functions.get? handler.lexeme).isSome
    | _ => true
  body _ _ _ := true

theorem ensures : resolution.Ensures contract where
  expr {n k c env e w r} he h _ _ := by
    simp only [contract]
    cases hcall : e.userCall? with
    | none => rfl
    | some name => exact knows_call he hcall h
  stmt {n k c c' env s w r} hs h _ _ := by
    obtain ⟨-, σ, hs⟩ := hs
    cases s with
    | server => exact knows_handler hs h
    | _ => rfl
  body _ _ _ := rfl

end resolution

-- No call and no server of an accepted program lacks its function, provided that the functions
-- which the scopes of the text do not find are defined before in the text, in blocks that are
-- run.
theorem calls_find_their_functions {source : String} {p : Program} (fuel : Nat)
    (console : Console) (options : Options) (hp : compile source = .ok p)
    (hcertain : p.certain = true) :
    Outcome.fails RuntimeFault.isUndefinedFunction
        (runStatements fuel p (World.fresh console options)) = false ∧
      resolution.contract.Kept fuel p (World.fresh console options) := by
  have hblock : resolution.Block fuel [] p :=
    resolution.block (certain_of_compile hp hcertain)
  have hagrees := Discipline.watched_agrees resolution.lawful resolution.ensures fuel
  have hrun := hagrees.run resolution.lawful hblock
    (fun signal cause _ hcause => Stop.avoids_runtime (by cases signal <;> cases hcause <;> rfl))
    (List.forall_mem_nil _) (resolution.inv_fresh console options)
  exact ⟨hrun.meets.fails_eq_false fun _ h => h, hrun.same⟩

-- Functions in a function and in a sequential block, called with a dot and under the name of
-- a variable, and one that a server answers with.
def everyCall : String :=
  "func f(s: string) -> string \x7b func g(t: string) -> string \x7b return t.f() \x7d
    seq \x7b var g: string = s.g() return g(g) \x7d return s \x7d
  seq \x7b func h(s: string) -> string \x7b return s \x7d \x7d
  var k: string = \"k\"
  s_channel c \x7b f, k.h(), \"host\", 80 \x7d"

set_option maxRecDepth 10000 in
theorem everyCall_finds_its_function :
    ∃ p, compile everyCall = .ok p ∧ p.certain = true ∧
      resolution.contract.Kept 40 p (World.fresh (.captured "") ⟨true, .loopback⟩) := by
  obtain ⟨p, hp, hcertain⟩ : ∃ p, compile everyCall = .ok p ∧ p.certain = true :=
    exists_of_any (by decide +kernel)
  exact ⟨p, hp, hcertain, (calls_find_their_functions 40 _ _ hp hcertain).2⟩

-- A function that is defined in another one, which is not called before the dot is reached.
def unreachedFunction : String :=
  "func outer() -> void \x7b func inner(x: number) -> number \x7b return x \x7d \x7d
  var x: number = 1
  print(x.inner())"

set_option maxRecDepth 10000 in
theorem unreachedFunction_is_undefined :
    ∃ p, compile unreachedFunction = .ok p ∧
      Outcome.fails RuntimeFault.isUndefinedFunction
        (runStatements 40 p (World.fresh (.captured "") ⟨true, .loopback⟩)) = true :=
  exists_of_any (by decide +kernel)

end Parlance
