import Parlance.Host.Local
import Parlance.Proofs.Accepted
import Parlance.Proofs.Discipline.Run
import Parlance.Proofs.Discipline.Site

namespace Parlance

namespace Expr

-- The variable that an expression reads or assigns itself.
def used? : Expr → Option String
  | name token _ => some token.lexeme
  | assign _ (name token _) _ => some token.lexeme
  | _ => none

def iterator? : Expr → Option String
  | comprehension _ iterator _ _ _ _ => some iterator.lexeme
  | _ => none

-- The names of all iterators in an expression.
def iterators (e : Expr) : List String :=
  e.parts.filterMap iterator?

theorem mem_iterators {e : Expr} {x : String} :
    x ∈ e.iterators ↔ ∃ t ∈ e.parts, t.iterator? = some x :=
  List.mem_filterMap

end Expr

namespace Stmt

-- The names that a statement declares for itself, in frames other than its own.
def binders (s : Stmt) : List String :=
  let params := match s with
    | function _ _ params _ _ => params.map Param.name
    | _ => []
  params ++ s.iterator?.toList ++ s.expressions.flatMap Expr.iterators

-- All names that a statement declares itself.
def declared (s : Stmt) : List String :=
  s.introduces.toList ++ s.binders

-- The names that are declared inside a statement, in frames other than its own.
def locals (s : Stmt) : List String :=
  s.binders ++ s.bodies.flatMap fun body => (partsOf body).flatMap declared

variable {s t : Stmt} {x : String} {body : List Stmt}

theorem mem_locals :
    x ∈ s.locals ↔ x ∈ s.binders ∨ ∃ body ∈ s.bodies, ∃ t ∈ partsOf body, x ∈ t.declared := by
  refine List.mem_append.trans (or_congr_right ?_)
  simp only [List.mem_flatMap]

-- What a statement of a block declares, itself or inside, some part of the block declares.
theorem exists_declared (ht : t ∈ body) (hx : x ∈ t.declared ∨ x ∈ t.locals) :
    ∃ u ∈ partsOf body, x ∈ u.declared := by
  have hparts : ∀ u ∈ t.parts, u ∈ partsOf body := fun u hu => mem_partsOf.mpr ⟨t, ht, hu⟩
  have hself := hparts t (mem_parts_self t)
  rcases hx with hx | hx
  · exact ⟨t, hself, hx⟩
  · rcases mem_locals.mp hx with hx | ⟨inner, hinner, u, hu, hx⟩
    · exact ⟨t, hself, List.mem_append_right _ hx⟩
    · exact ⟨u, hparts u (mem_parts.mpr (.inr ⟨inner, hinner, hu⟩)), hx⟩

theorem mem_locals_of_mem_body (hbody : body ∈ s.bodies) (ht : t ∈ body)
    (hx : x ∈ t.declared ∨ x ∈ t.locals) : x ∈ s.locals :=
  mem_locals.mpr (.inr ⟨body, hbody, exists_declared ht hx⟩)

theorem mem_binders_of_mem_expressions {e : Expr} (he : e ∈ s.expressions)
    (hx : x ∈ e.iterators) : x ∈ s.binders :=
  List.mem_append_right _ (List.mem_flatMap.mpr ⟨e, he, hx⟩)

theorem mem_locals_of_operand {e : Expr} (he : e ∈ s.operands) (hx : x ∈ e.iterators) :
    x ∈ s.locals := by
  cases s with
  | function => cases he
  | par body line =>
    refine mem_locals_of_mem_body (List.mem_singleton.mpr rfl) (Eval.mem_of_mem_workers he) ?_
    refine .inr (mem_locals.mpr (.inl (mem_binders_of_mem_expressions ?_ hx)))
    exact List.mem_singleton.mpr rfl
  | _ => exact mem_locals.mpr (.inl (mem_binders_of_mem_expressions he hx))

end Stmt

-- The parameters of a function, and the names that are declared in its body.
def Function.locals (f : Function) : List String :=
  f.params.map Param.name ++ (Stmt.partsOf f.body).flatMap Stmt.declared

-- The names that are declared in a program anywhere but among the globals.
def Program.locals (p : Program) : List String :=
  p.flatMap Stmt.locals

namespace Function

variable {f : Function} {x : String}

theorem mem_locals : x ∈ f.locals ↔ f.HasParam x ∨ ∃ t ∈ Stmt.partsOf f.body, x ∈ t.declared :=
  List.mem_append.trans (or_congr List.mem_map List.mem_flatMap)

theorem mem_locals_of_mem_body {s : Stmt} (hs : s ∈ f.body)
    (hx : x ∈ s.declared ∨ x ∈ s.locals) : x ∈ f.locals :=
  mem_locals.mpr (.inr (Stmt.exists_declared hs hx))

theorem mem_locals_definition_of_default {p : Param} {e : Expr} (hp : p ∈ f.params)
    (he : p.default = some e) (hx : x ∈ e.iterators) : x ∈ f.definition.locals := by
  refine Stmt.mem_locals.mpr (.inl (Stmt.mem_binders_of_mem_expressions ?_ hx))
  exact List.mem_filterMap.mpr ⟨p, hp, he⟩

theorem mem_locals_definition (hx : x ∈ f.locals) : x ∈ f.definition.locals := by
  refine Stmt.mem_locals.mpr ?_
  rcases mem_locals.mp hx with ⟨p, hp, rfl⟩ | hx
  · refine .inl (List.mem_append_left _ (List.mem_append_left _ ?_))
    exact List.mem_map.mpr ⟨p, hp, rfl⟩
  · exact .inr ⟨f.body, List.mem_singleton.mpr rfl, hx⟩

end Function

-- A body of a function finds the variables that it does not declare itself, wherever it reads
-- or assigns one.
def Contract.outward (found : Activation → Nat → String → Frames → Bool) : Contract where
  expr k env e w r :=
    match k, e.used? with
    | some a, some x =>
      a.function.locals.contains x ||
        found a env x w.frames && found a env x (Outcome.world r).frames
    | _, _ => true
  stmt _ _ _ _ _ := true
  body _ _ _ := true

-- Such variables are found among the globals, apart from some names.
def Contract.lexical (others : List String) : Contract :=
  .outward fun _ env x fs => others.contains x || fs.owner? x env == fs.owner? x globals

-- The caller of a function finds a variable where the body of the function finds it, and both
-- find it among the globals exactly if no other frame that the caller sees binds it.
def Frames.foundByCaller (a : Activation) (env : Nat) (x : String) (fs : Frames) : Bool :=
  match fs.parent? a.scope with
  | none => false
  | some caller =>
    fs.owner? x env == fs.owner? x caller &&
      (fs.owner? x env == fs.owner? x globals) ==
        (fs.chain caller).all fun i => i == globals || !(fs.bindings i).contains x

def Contract.dynamic : Contract :=
  .outward Frames.foundByCaller

-- In a frame of the body of a function, the names that the function does not declare mean
-- what they mean to the caller.
structure Activation.CalledFrom (a : Activation) (caller env : Nat) (fs : Frames) : Prop where
  parent : fs.parent? a.scope = some caller
  rooted : globals ∈ fs.chain caller
  owner : ∀ x, x ∉ a.function.locals → fs.owner? x env = fs.owner? x caller

-- Names that are not hidden mean what they mean among the globals. Those of the site may be
-- declared there and further inside.
structure Site.Reveals (hidden : String → Prop) (k : Option Activation) (c : Site) (env : Nat)
    (w : World) : Prop extends c.At env w where
  uncalled : c.top = true → k = none
  hides : ∀ x, c.names x → hidden x
  global : ∀ x, ¬ hidden x → w.frames.owner? x env = w.frames.owner? x globals
  locals : ∀ a, k = some a → ∀ x, c.names x → x ∈ a.function.locals
  caller : ∀ a, k = some a → ∃ caller, a.CalledFrom caller env w.frames

-- Programs that declare names anywhere but among the globals only if they may be hidden.
def calls (hidden : String → Prop) : Discipline Site where
  expr _ c e := ∀ x ∈ e.iterators, c.names x
  stmt _ c s c' := c' = c ∧ (∀ x, s.introduces = some x → c.top = true ∨ c.names x) ∧
    ∀ x ∈ s.locals, c.names x
  call _ _ := True
  inside _ c := ⟨false, c.names⟩
  project c _ := ⟨false, c.names⟩
  holds := Site.Reveals hidden
  func f _ := ∀ x ∈ f.definition.locals, hidden x
  signal _ _ := True
  ends _ := True
  allowed _ := True

namespace Activation.CalledFrom

variable {a : Activation} {caller env : Nat} {fs gs : Frames}

theorem keeps {new : String → Prop} (h : a.CalledFrom caller env fs)
    (hk : Frames.Keeps env new fs gs) (hnew : ∀ x, new x → x ∈ a.function.locals) :
    a.CalledFrom caller env gs where
  parent := (hk.parent a.scope).trans h.parent
  rooted := hk.chain caller ▸ h.rooted
  owner x hx := by
    have hold : ¬ new x := fun hn => hx (hnew x hn)
    rw [hk.owner? hold, hk.owner? hold, h.owner x hx]

theorem child (h : a.CalledFrom caller env fs) (henv : env < fs.size) :
    a.CalledFrom caller fs.size (fs.child env) where
  parent := (Frames.parent?_child_of_lt fs env (Frames.lt_size_of_parent? h.parent)).trans h.parent
  rooted := by
    rw [Frames.chain_child_of_lt fs env (Frames.lt_size_of_mem_chain h.rooted)]
    exact h.rooted
  owner x hx := by
    rw [Frames.owner?_child_self fs x henv, h.owner x hx,
      Frames.owner?_child_of_lt fs env x (Frames.lt_size_of_mem_chain h.rooted)]

-- A call starts in a frame under that of the caller, with the parameters in it.
theorem start {f : Function} (hroot : globals ∈ fs.chain env)
    (hk : Frames.Keeps fs.size f.HasParam (fs.child env) gs) :
    CalledFrom ⟨fs.size, f⟩ env fs.size gs := by
  have henv := Frames.lt_size_of_mem_chain hroot
  refine ⟨(hk.parent fs.size).trans (Frames.parent?_child_self fs env), ?_, fun x hx => ?_⟩
  · rw [hk.chain, Frames.chain_child_of_lt fs env henv]
    exact hroot
  · have hold : ¬ f.HasParam x := fun hp => hx (Function.mem_locals.mpr (.inl hp))
    rw [hk.owner? hold, hk.owner? hold, Frames.owner?_child_self fs x henv,
      Frames.owner?_child_of_lt fs env x henv]

end Activation.CalledFrom

namespace Site.Reveals

variable {hidden : String → Prop} {k : Option Activation} {c : Site} {env : Nat} {w t : World}

theorem moves {new : String → Prop} (h : Site.Reveals hidden k c env w) (hm : w.Moves env new t)
    (hnew : ∀ x, new x → c.top = true ∨ c.names x) : Site.Reveals hidden k c env t where
  toAt := h.toAt.moves hm
  uncalled := h.uncalled
  hides := h.hides
  global x hx := by
    by_cases hn : new x
    · rcases hnew x hn with htop | hname
      · rw [h.top htop]
      · exact absurd (h.hides x hname) hx
    · rw [hm.frames.owner? hn, hm.frames.owner? hn, h.global x hx]
  locals := h.locals
  caller a ha := by
    refine (h.caller a ha).imp fun _ hcall => hcall.keeps hm.frames fun x hn => ?_
    refine h.locals a ha x ((hnew x hn).resolve_left fun htop => ?_)
    cases ha.symm.trans (h.uncalled htop)

theorem opened (h : Site.Reveals hidden k c env w) :
    Site.Reveals hidden k ⟨false, c.names⟩ w.frames.size (w.opened env) where
  toAt := h.toAt.opened c.names
  uncalled htop := by cases htop
  hides := h.hides
  global x hx := by
    rw [World.opened, Frames.owner?_child_self w.frames x h.lt_size, h.global x hx,
      Frames.owner?_child_of_lt w.frames env x h.globals_lt_size]
  locals := h.locals
  caller a ha := (h.caller a ha).imp fun _ hcall => hcall.child h.lt_size

-- Outside of calls there is nothing to know about callers.
theorem outside {top : Bool} (hroot : globals ∈ w.frames.chain env)
    (htop : top = true → env = globals)
    (hglobal : ∀ x, ¬ hidden x → w.frames.owner? x env = w.frames.owner? x globals) :
    Site.Reveals hidden none ⟨top, hidden⟩ env w where
  toAt := ⟨hroot, htop⟩
  uncalled _ := rfl
  hides _ hx := hx
  global := hglobal
  locals _ ha := by cases ha
  caller _ ha := by cases ha

theorem opened_defined (h : Site.Reveals hidden k c env w) {name : String} (v : Value)
    (hname : c.names name) :
    Site.Reveals hidden k ⟨false, c.names⟩ w.frames.size
      ((w.opened env).defined w.frames.size name v) :=
  h.opened.moves ((w.opened env).moves_defined _ name v) fun _ hx => .inr (hx ▸ hname)

end Site.Reveals

namespace calls

variable {hidden : String → Prop}

theorem expr_of_mem {n m : Nat} {c c' : Site} {e x : Expr} (h : (calls hidden).expr n c e)
    (hparts : ∀ t ∈ x.parts, t ∈ e.parts) (hnames : ∀ name, c.names name → c'.names name) :
    (calls hidden).expr m c' x := by
  intro name hname
  obtain ⟨t, ht, hiterator⟩ := Expr.mem_iterators.mp hname
  exact hnames name (h name (Expr.mem_iterators.mpr ⟨t, hparts t ht, hiterator⟩))

theorem block {n : Nat} {c : Site} {body : List Stmt}
    (h : ∀ s ∈ body, ∀ x, x ∈ s.declared ∨ x ∈ s.locals → c.names x) :
    (calls hidden).Block n c body := by
  refine .of_forall fun s hs => ⟨rfl, fun x hx => .inr (h s hs x (.inl ?_)), fun x hx => ?_⟩
  · exact List.mem_append_left _ (Option.mem_toList.mpr hx)
  · exact h s hs x (.inr hx)

theorem enters {n : Nat} {k : Option Activation} {c : Site} {env : Nat} {f : Function} {w : World}
    (h : Site.Reveals hidden k c env w) (hf : ∀ x ∈ f.definition.locals, hidden x) :
    (calls hidden).Enters n f env w ⟨false, hidden⟩ ⟨false, (· ∈ f.locals)⟩ where
  start := .outside h.opened.rooted (fun htop => by cases htop) h.opened.global
  default p hp e he x hx := hf x (Function.mem_locals_definition_of_default hp he hx)
  param p hp t v ht := by
    refine ht.moves (t.moves_defined _ p.name v) fun x hx => .inr (hf x ?_)
    exact Function.mem_locals_definition (Function.mem_locals.mpr (.inl ⟨p, hp, hx.symm⟩))
  bound t hm ht _ :=
    { ht.toAt.inner (· ∈ f.locals) with
      uncalled := fun htop => by cases htop
      hides := fun x hx => hf x (Function.mem_locals_definition hx)
      global := ht.global
      locals := by
        rintro _ ⟨⟩ x hx
        exact hx
      caller := by
        rintro _ ⟨⟩
        exact ⟨env, .start h.rooted hm.frames⟩ }
  body := by
    cases n with
    | zero => trivial
    | succ n => exact block fun s hs x hx => Function.mem_locals_of_mem_body hs hx
  ends _ _ := trivial

theorem lawful (hidden : String → Prop) : (calls hidden).Lawful where
  operand he x hx := expr_of_mem he (Expr.parts_subset_of_operand hx) fun _ h => h
  projection he := by
    refine expr_of_mem he (Expr.parts_subset ?_) fun _ h => h
    simp [Expr.children]
  value hs e he x hx := hs.2.2 x (Stmt.mem_locals_of_operand he hx)
  block hs body hbody := by
    refine block fun t ht x hx => hs.2.2 x (Stmt.mem_locals_of_mem_body ?_ ht hx)
    exact Stmt.mem_bodies_of_mem_blocks hbody
  stable h hm := h.moves hm fun _ hx => hx.elim
  opens _ _ _ h := h.opened
  iterates v hs h := by
    refine h.opened_defined v (hs.2.2 _ (Stmt.mem_locals.mpr (.inl ?_)))
    simp [Stmt.binders, Stmt.iterator?]
  projects v he h := by
    refine h.opened_defined v (he _ (Expr.mem_iterators.mpr ⟨_, Expr.mem_parts_self _, rfl⟩))
  follows hs _ _ _ h := hs.1 ▸ h
  declares {n k c s c' env w x} v hs hx h := by
    refine hs.1 ▸ h.moves (w.moves_defined env x v) fun y hy => ?_
    exact hs.2.1 y (hy ▸ hx)
  defines {n k c name returns params body line c' env w} hs h := by
    refine ⟨fun x hx => h.hides x (hs.2.2 x hx), ?_⟩
    exact hs.1 ▸ h.moves (w.moves_learned env _) fun _ hx => hx.elim
  enters {n k c env f w} _ h hf _ := by
    refine ⟨_, _, enters h (hf.elim id fun hidle => ?_)⟩
    rintro x hx
    rw [hidle] at hx
    cases hx
  serves _ _ h := by
    refine ⟨⟨true, hidden⟩, fun _ => ?_, trivial⟩
    exact .outside (Frames.mem_chain_self _ h.globals_lt_size) (fun _ => rfl) fun _ _ => rfl

-- A contract about the variables that the bodies of functions use but do not declare.
theorem ensures {found : Activation → Nat → String → Frames → Bool}
    (hfound : ∀ a c env x t, Site.Reveals hidden (some a) c env t → x ∉ a.function.locals →
      found a env x t.frames = true) : (calls hidden).Ensures (.outward found) where
  expr {n k c env e w r} _ hc _ hm := by
    have hend : Site.Reveals hidden k c env r.world := hc.moves hm.moves fun _ hx => hx.elim
    simp only [Contract.outward]
    split
    · next a x _ =>
      by_cases hx : x ∈ a.function.locals
      · simp [hx]
      · simp [hfound a c env x _ hc hx, hfound a c env x _ hend hx]
    · rfl
  stmt _ _ _ _ := rfl
  body _ _ _ := rfl

theorem dynamic_of_holds {a : Activation} {c : Site} {env : Nat} {x : String} {w : World}
    (h : Site.Reveals hidden (some a) c env w) (hx : x ∉ a.function.locals) :
    Frames.foundByCaller a env x w.frames = true := by
  obtain ⟨caller, hcall⟩ := h.caller a rfl
  have hglobal : (w.frames.owner? x caller == w.frames.owner? x globals) =
      (w.frames.chain caller).all fun i => i == globals || !(w.frames.bindings i).contains x := by
    rw [Bool.eq_iff_iff, beq_iff_eq, Frames.owner?_eq_globals_iff x hcall.rooted]
    simp [Frames.Binds, Decidable.or_iff_not_imp_left]
  simp [Frames.foundByCaller, hcall.parent, hcall.owner x hx, hglobal]

theorem kept (fuel : Nat) (p : Program) (console : Console) (options : Options) {C : Contract}
    (hC : (calls (· ∈ Program.locals p)).Ensures C) :
    C.Kept fuel p (World.fresh console options) := by
  have hp : (calls (· ∈ Program.locals p)).Block fuel ⟨true, (· ∈ Program.locals p)⟩ p :=
    .of_forall fun s hs =>
      ⟨rfl, fun _ _ => .inl rfl, fun x hx => List.mem_flatMap.mpr ⟨s, hs, hx⟩⟩
  have hroot : globals ∈ (World.fresh console options).frames.chain globals :=
    Frames.mem_chain_self Frames.root Nat.zero_lt_one
  have hstart : Site.Reveals (· ∈ Program.locals p) none ⟨true, (· ∈ Program.locals p)⟩ globals
      (World.fresh console options) :=
    .outside hroot (fun _ => rfl) fun _ _ => rfl
  have hagrees := Discipline.watched_agrees (lawful _) hC fuel
  exact (hagrees.run (lawful _) hp (fun _ _ _ _ => trivial) hstart
    ((calls _).inv_fresh console options)).same

end calls

-- The variables that the body of a function uses but does not declare mean what they mean to
-- the caller of the function, and that is what they mean among the globals if no other frame
-- that the caller sees binds them. So they are globals if their names are declared nowhere
-- else in the program.
theorem callers_decide_names (fuel : Nat) (p : Program) (console : Console) (options : Options) :
    Contract.dynamic.Kept fuel p (World.fresh console options) ∧
      (Contract.lexical (Program.locals p)).Kept fuel p (World.fresh console options) := by
  refine ⟨calls.kept fuel p console options ?_, calls.kept fuel p console options ?_⟩
  · exact calls.ensures fun a c env x t => calls.dynamic_of_holds
  · refine calls.ensures fun a c env x t h _ => ?_
    by_cases hx : x ∈ Program.locals p
    · simp [hx]
    · simp [h.global x hx]

-- A function that declares the name of a global, and calls another that uses the global.
def shadowing : String :=
  "var x: number = 1
  func g() -> number \x7b return x \x7d
  func f() -> number \x7b var x: number = 2 return g() \x7d
  print(f())"

set_option maxRecDepth 10000 in
-- The other function gets to see the variable of its caller.
theorem shadowing_is_not_lexical :
    ∃ p, compile shadowing = .ok p ∧ Program.Flat p ∧
      Outcome.output (runStatements 20 p (World.fresh (.captured "") ⟨true, .loopback⟩)) = "2\n" ∧
      ¬ (Contract.lexical []).Kept 20 p (World.fresh (.captured "") ⟨true, .loopback⟩) := by
  obtain ⟨p, hp, hflat, hrun, hwatched⟩ : ∃ p, compile shadowing = .ok p ∧ Program.Flat p ∧
      Outcome.output (runStatements 20 p (World.fresh (.captured "") ⟨true, .loopback⟩)) = "2\n" ∧
      Outcome.output (runWith ((Contract.lexical []).watched 20 none) p
        (World.fresh (.captured "") ⟨true, .loopback⟩)) = "" :=
    exists_of_any (by decide +kernel)
  refine ⟨p, hp, hflat, hrun, fun hkept => ?_⟩
  rw [hkept, hrun] at hwatched
  exact absurd hwatched (by decide)

end Parlance
