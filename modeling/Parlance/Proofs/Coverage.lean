import Parlance.Host.Local
import Parlance.Proofs.Discipline.Site
import Parlance.Proofs.Scoping.Variables

namespace Parlance

-- The names of a site have a value that can be seen from a frame.
structure Site.Covers (c : Site) (env : Nat) (w : World) : Prop extends c.At env w where
  names : ∀ x, c.names x → w.frames.Sees env x

-- A statement that uses only names of a site. Functions stand outside of all blocks.
structure Site.Allows (c : Site) (s : Stmt) (c' : Site) : Prop where
  top : c'.top = c.top
  names : ∀ x, c'.names x → s.introduces = some x ∨ c.names x
  fits : ∃ σ τ, s.Scoped σ τ ∧ ∀ x, σ.IsVariable x → c.names x
  tame : s.Tame
  flat : ∀ body ∈ s.bodies, ∀ t ∈ Stmt.partsOf body, t.isFunction = false
  here : s.isFunction = true → c.top = true

-- A function that uses only its own names and globals that have a value.
structure Function.Covered (f : Function) (names : String → Prop) (w : World) : Prop where
  bound : ∀ x, names x → w.frames.Binds globals x
  defaults : ∀ p ∈ f.params, ∀ e, p.default = some e → ∀ x ∈ e.free, names x
  body : ∃ σ, Block.Scoped σ f.body ∧ ∀ x, σ.IsVariable x → names x ∨ f.HasParam x
  tame : ∀ s ∈ f.body, s.Tame
  flat : ∀ t ∈ Stmt.partsOf f.body, t.isFunction = false

def RuntimeFault.isUndefinedVariable : RuntimeFault → Bool
  | .undefinedVariable _ => true
  | _ => false

-- Programs in which every variable has a value when it is used.
def coverage : Discipline Site where
  expr _ c e := ∀ x ∈ e.free, c.names x
  stmt _ := Site.Allows
  call _ _ := True
  inside s c := ⟨false, fun x => s.iterator? = some x ∨ c.names x⟩
  project c name := ⟨false, fun x => x = name ∨ c.names x⟩
  holds _ := Site.Covers
  func f w := ∃ names, f.Covered names w
  signal _ _ := True
  ends _ := True
  allowed := Stop.Avoids RuntimeFault.isUndefinedVariable

namespace Site

variable {c c' : Site} {env : Nat} {w t : World}

namespace Covers

theorem owner?_ne_none (h : c.Covers env w) {x : String} (hx : c.names x) :
    w.frames.owner? x env ≠ none :=
  Option.isSome_iff_ne_none.mp ((Frames.owner?_isSome_iff w.frames x env).mpr (h.names x hx))

theorem moves {new : String → Prop} (h : c.Covers env w) (hm : w.Moves env new t) :
    c.Covers env t :=
  { h.toAt.moves hm with names := fun x hx => hm.frames.sees (h.names x hx) }

theorem mono (h : c.Covers env w) (htop : c'.top = true → c.top = true)
    (hnames : ∀ x, c'.names x → c.names x) : c'.Covers env w where
  names x hx := h.names x (hnames x hx)
  rooted := h.rooted
  top hc := h.top (htop hc)

theorem opened {names : String → Prop} (h : c.Covers env w)
    (hnames : ∀ x, names x → c.names x) :
    Site.Covers ⟨false, names⟩ w.frames.size (w.opened env) :=
  { h.toAt.opened names with names := fun x hx => Frames.sees_child (h.names x (hnames x hx)) }

theorem defined (h : c.Covers env w) (htop : c'.top = c.top) {name : String} (v : Value)
    (hnames : ∀ x, c'.names x → x = name ∨ c.names x) :
    c'.Covers env (w.defined env name v) where
  names x hx := by
    rcases hnames x hx with rfl | hx
    · refine Frames.sees_of_binds ?_
      exact (Frames.binds_define_iff w.frames x v h.lt_size env x).mpr (.inr ⟨rfl, rfl⟩)
    · exact (h.moves (w.moves_defined env name v)).names x hx
  rooted := (h.moves (w.moves_defined env name v)).rooted
  top hc := h.top (htop ▸ hc)

theorem opened_defined {names : String → Prop} (h : c.Covers env w) {name : String}
    (v : Value) (hnames : ∀ x, names x → x = name ∨ c.names x) :
    Site.Covers ⟨false, names⟩ w.frames.size ((w.opened env).defined w.frames.size name v) := by
  have hopened : Site.Covers ⟨false, c.names⟩ w.frames.size (w.opened env) :=
    h.opened fun _ hx => hx
  exact hopened.defined (by rfl) v hnames

-- Outside of all blocks, the names that can be seen are globals.
theorem binds_globals (h : c.Covers env w) (htop : c.top = true) {x : String}
    (hx : c.names x) : w.frames.Binds globals x := by
  obtain ⟨i, hi, hb⟩ := h.names x hx
  rw [h.top htop] at hi
  cases Nat.le_zero.mp (Frames.le_of_mem_chain hi)
  exact hb

end Covers

end Site

namespace coverage

variable {c c' : Site} {env : Nat} {w t : World}

theorem block {n : Nat} {σ : Scope} {body : List Stmt} (h : Block.Scoped σ body)
    (hσ : ∀ x, σ.IsVariable x → c.names x) (htame : ∀ s ∈ body, s.Tame)
    (hflat : ∀ s ∈ body, ∀ inner ∈ s.bodies, ∀ t ∈ Stmt.partsOf inner, t.isFunction = false)
    (hhere : ∀ s ∈ body, s.isFunction = true → c.top = true) : coverage.Block n c body := by
  induction body generalizing c σ with
  | nil => exact .nil c
  | cons s rest ih =>
    cases h with
    | @cons _ τ _ _ head tail =>
      have hhead : coverage.stmt n c s ⟨c.top, τ.IsVariable⟩ :=
        { top := rfl
          names := fun x hx => (head.isVariable hx).imp id (hσ x)
          fits := ⟨σ, τ, head, hσ⟩
          tame := htame s List.mem_cons_self
          flat := hflat s List.mem_cons_self
          here := hhere s List.mem_cons_self }
      refine .cons hhead (ih tail (fun _ hx => hx) ?_ ?_ ?_)
      · exact fun t ht => htame t (List.mem_cons_of_mem s ht)
      · exact fun t ht => hflat t (List.mem_cons_of_mem s ht)
      · exact fun t ht => hhere t (List.mem_cons_of_mem s ht)

-- A block without functions, which is not outside of all blocks.
theorem block_of_flat {n : Nat} {σ : Scope} {body : List Stmt} (h : Block.Scoped σ body)
    (hσ : ∀ x, σ.IsVariable x → c.names x) (htame : ∀ s ∈ body, s.Tame)
    (hflat : ∀ t ∈ Stmt.partsOf body, t.isFunction = false) : coverage.Block n c body := by
  refine block h hσ htame (fun s hs inner hinner t ht => hflat t ?_) fun s hs hfunction => ?_
  · exact Stmt.mem_partsOf.mpr ⟨s, hs, Stmt.mem_parts.mpr (.inr ⟨inner, hinner, ht⟩)⟩
  · have hnot := hflat s (Stmt.mem_partsOf.mpr ⟨s, hs, Stmt.mem_parts_self s⟩)
    rw [hnot] at hfunction
    cases hfunction

end coverage

-- A definition outside of all blocks makes a function that uses only what is there already.
theorem Site.Allows.covered {c c' : Site} {env : Nat} {w : World} {name : String} {returns : Ty}
    {params : List Param} {body : List Stmt} {line : Nat}
    (h : c.Allows (.function name returns params body line) c') (hc : c.Covers env w) :
    Function.Covered ⟨name, returns, params, body, line⟩ c.names w := by
  obtain ⟨σ, τ, hscoped, hσ⟩ := h.fits
  have hmem : body ∈ (Stmt.function name returns params body line).bodies :=
    List.mem_singleton.mpr rfl
  have hself := Stmt.mem_parts_self (.function name returns params body line)
  have hτ : ∀ x, τ.IsVariable x → c.names x := fun x hx => by
    rcases hscoped.isVariable hx with hx | hx
    · cases hx
    · exact hσ x hx
  cases hscoped with
  | function _ _ _ hparams hbody =>
    refine
      { bound := fun x => hc.binds_globals (h.here rfl)
        defaults := fun p hp e he x hx => hτ x ?_
        body := ⟨_, hbody, fun x hx => ?_⟩
        tame := fun s hs => h.tame.of_mem_body hmem hs
        flat := h.flat body hmem }
    · have hplain := h.tame.plain _ hself e (List.mem_filterMap.mpr ⟨p, hp, he⟩)
      exact (hparams p hp e he).isVariable_of_free hplain x hx
    · rcases Scope.isVariable_of_insertAll hx with hx | hx
      · rw [List.map_map] at hx
        obtain ⟨p, hp, rfl⟩ := List.mem_map.mp hx
        exact .inr ⟨p, hp, rfl⟩
      · exact .inl (hτ x hx)

namespace Function

variable {f : Function} {names : String → Prop} {c : Site} {env : Nat} {w t : World}

theorem covered_idle (w : World) : idle.Covered noName w where
  bound _ h := h.elim
  defaults _ h := by cases h
  body := ⟨.empty, .nil _, fun _ ⟨_, h, _⟩ => by cases h⟩
  tame _ h := by cases h
  flat _ h := by cases h

namespace Covered

theorem mono (hf : f.Covered names w)
    (hbinds : ∀ x, w.frames.Binds globals x → t.frames.Binds globals x) : f.Covered names t :=
  { hf with bound := fun x hx => hbinds x (hf.bound x hx) }

-- The globals can be seen from everywhere.
theorem covers (hf : f.Covered names w) (h : c.Covers env w) :
    Site.Covers ⟨false, names⟩ env w :=
  { h.toAt.inner names with names := fun x hx => ⟨globals, h.rooted, hf.bound x hx⟩ }

theorem block (hf : f.Covered names w) (n : Nat) :
    coverage.Body n ⟨false, fun x => names x ∨ f.HasParam x⟩ f.body := by
  obtain ⟨σ, hbody, hσ⟩ := hf.body
  cases n with
  | zero => exact Stop.avoids_outOfFuel
  | succ n => exact coverage.block_of_flat hbody hσ hf.tame hf.flat

theorem enters (hf : f.Covered names w) (h : c.Covers env w) (n : Nat) :
    coverage.Enters n f env w ⟨false, names⟩ ⟨false, fun x => names x ∨ f.HasParam x⟩ where
  start := (hf.covers h).opened fun _ hx => hx
  default := hf.defaults
  param p _ t v ht := ht.moves (t.moves_defined _ p.name v)
  bound _ _ ht hparams :=
    { names := fun x hx => hx.elim (ht.names x) fun hx => Frames.sees_of_binds (hparams x hx)
      rooted := ht.rooted
      top := ht.top }
  body := hf.block n
  ends _ _ := trivial

end Covered

end Function

namespace coverage

theorem lawful : coverage.Lawful where
  operand he x hx y hy := he y (Expr.free_subset_of_operand hx y hy)
  projection {n c bracket iterator ty initial iterable projection} he x hx := by
    by_cases h : x = iterator.lexeme
    · exact .inl h
    · refine .inr (he x ?_)
      exact List.mem_append_right _ (List.mem_filter.mpr ⟨hx, bne_iff_ne.mpr h⟩)
  value hs e he x hx := by
    obtain ⟨σ, τ, hscoped, hσ⟩ := hs.fits
    exact hσ x (hscoped.isVariable_of_operand hs.tame he x hx)
  block hs body hbody := by
    obtain ⟨σ, τ, hscoped, hσ⟩ := hs.fits
    obtain ⟨ρ, hρ, hnames⟩ := hscoped.of_mem_blocks hbody
    have hmem := Stmt.mem_bodies_of_mem_blocks hbody
    exact block_of_flat hρ (fun x hx => (hnames x hx).imp id (hσ x))
      (fun s => hs.tame.of_mem_body hmem) (hs.flat body hmem)
  stable h hm := h.moves hm
  opens {n k c s c' env w} _ _ heach h := by
    refine h.opened fun x hx => hx.resolve_left fun hiterator => ?_
    cases s with
    | each => cases heach
    | _ => cases hiterator
  iterates {n k c d iterable body c' env w} v _ h := by
    refine h.opened_defined v fun x hx => ?_
    exact hx.imp (fun hx => (Option.some.inj hx).symm) id
  projects v _ h := h.opened_defined v fun _ hx => hx
  follows hs hnone _ _ h := by
    refine h.mono (hs.top ▸ id) fun x hx => (hs.names x hx).resolve_left fun hsome => ?_
    rw [hnone] at hsome
    cases hsome
  declares v hs hintroduces h := by
    refine h.defined hs.top v fun y hy => (hs.names y hy).imp (fun hsome => ?_) id
    exact Option.some.inj (hsome.symm.trans hintroduces)
  defines {n k c name returns params body line c' env w} hs h := by
    have hlearned := h.moves (w.moves_learned env ⟨name, returns, params, body, line⟩)
    refine ⟨⟨c.names, hs.covered hlearned⟩, hlearned.mono (hs.top ▸ id) ?_⟩
    exact fun x hx => (hs.names x hx).resolve_left (by rintro ⟨⟩)
  binds hbinds _ hf := hf.imp fun _ h => h.mono hbinds
  closes h _ hf := hf.imp fun _ hf => hf.mono fun x hx => by
    rw [World.closed, Frames.Binds, Frames.bindings, Frames.all_release _ h.globals_lt_size]
    exact hx
  enters {n k c env f w} _ h hf _ := by
    obtain ⟨names, hf⟩ : ∃ names, f.Covered names w :=
      hf.elim id fun hidle => ⟨noName, hidle ▸ Function.covered_idle w⟩
    exact ⟨_, _, hf.enters h n⟩
  serves _ _ h := by
    refine ⟨⟨false, noName⟩, fun _ => ⟨⟨?_, fun _ => rfl⟩, fun _ hx => hx.elim⟩, trivial⟩
    exact Frames.mem_chain_self _ h.globals_lt_size
  waits _ := Stop.avoids_outOfFuel
  crashes _ _ := Stop.avoids_crash
  ordinary := Stop.avoids_of_ordinary fun cause h => by cases cause <;> first | rfl | cases h
  placed h line _ := Stop.avoids_orLine h line
  fails h := by
    cases h with
    | unbound he h hnone | unassigned he h hnone =>
      exact absurd hnone (h.owner?_ne_none (he _ List.mem_cons_self))
    | _ => exact Stop.avoids_runtime rfl

theorem block_of_compile {source : String} {p : Program} (fuel : Nat)
    (hp : compile source = .ok p) (hflat : Program.Flat p) (hown : Program.NoOwnNames p)
    (hcalls : Program.OnlyCalls p) : coverage.Block fuel ⟨true, noName⟩ p :=
  block (scoped_of_parse (compile_eq_ok.mp hp).1) (fun _ hx => Scope.not_isVariable_root hx)
    (fun _ hs => Program.tame hp hown hcalls hs) hflat fun _ _ _ => rfl

theorem covers_fresh (console : Console) (options : Options) :
    Site.Covers ⟨true, noName⟩ globals (World.fresh console options) where
  names _ hx := hx.elim
  rooted := Frames.mem_chain_self Frames.root Nat.zero_lt_one
  top _ := rfl

end coverage

-- In an accepted program whose functions are defined outside of all blocks and are only
-- called, and in which nothing is made from itself, every variable has a value whenever it is
-- read or assigned: no evaluation fails for the lack of one, not even in the body of a
-- function, in a parallel block or in what a server answers with.
theorem variables_are_defined {source : String} {p : Program} (fuel : Nat) (console : Console)
    (options : Options) (hp : compile source = .ok p) (hflat : Program.Flat p)
    (hown : Program.NoOwnNames p) (hcalls : Program.OnlyCalls p) :
    Outcome.fails RuntimeFault.isUndefinedVariable
        (runStatements fuel p (World.fresh console options)) = false ∧
      (Contract.avoiding RuntimeFault.isUndefinedVariable).Kept fuel p
        (World.fresh console options) := by
  have hallowed : ∀ s, coverage.allowed s → s.Avoids RuntimeFault.isUndefinedVariable :=
    fun _ h => h
  have hagrees := Discipline.watched_agrees coverage.lawful
    (Discipline.ensures_avoiding hallowed) fuel
  have hrun := hagrees.run coverage.lawful (coverage.block_of_compile fuel hp hflat hown hcalls)
    (fun signal cause _ hcause => Stop.avoids_runtime (by cases signal <;> cases hcause <;> rfl))
    (coverage.covers_fresh console options) (coverage.inv_fresh console options)
  exact ⟨hrun.meets.fails_eq_false hallowed, hrun.same⟩

-- A program with variables of every kind: globals, parameters, iterators and channels.
def everyName : String :=
  "var k: list = [2]
  func f(s: string, a: list = k) -> string \x7b
  for (x: number in a) \x7b k = [for (y: number in a) -> x + y] \x7d return s \x7d
  s_channel c \x7b f, \"d\", \"h\", len(k) \x7d
  par \x7b f(\"p\") \x7d"

set_option maxRecDepth 10000 in
theorem everyName_is_defined :
    ∃ p, compile everyName = .ok p ∧ Program.Flat p ∧ Program.NoOwnNames p ∧ Program.OnlyCalls p ∧
      (Contract.avoiding RuntimeFault.isUndefinedVariable).Kept 40 p
        (World.fresh (.captured "") ⟨true, .loopback⟩) := by
  obtain ⟨p, hp, hflat, hown, hcalls⟩ : ∃ p, compile everyName = .ok p ∧ Program.Flat p ∧
      Program.NoOwnNames p ∧ Program.OnlyCalls p := exists_of_any (by decide +kernel)
  exact ⟨p, hp, hflat, hown, hcalls,
    (variables_are_defined 40 (.captured "") ⟨true, .loopback⟩ hp hflat hown hcalls).2⟩

end Parlance
