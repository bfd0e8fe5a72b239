import Parlance.Host.Local
import Parlance.Proofs.Discipline.Run
import Parlance.Proofs.Discipline.Site

namespace Parlance

-- What happens in the frame `env` does not get out of it: of the frames that were there
-- before, no other one gains or loses a name, and those that `env` does not look names up in
-- keep their values too. The frame itself loses no name and gains none but those of `new`.
structure Frames.Confined (env : Nat) (new : String → Prop) (fs gs : Frames) : Prop where
  size : gs.size = fs.size
  names : ∀ i, i < fs.size → i ≠ env → ∀ x, gs.Binds i x ↔ fs.Binds i x
  values : ∀ i, i < fs.size → i ∉ fs.chain env → gs.bindings i = fs.bindings i
  keeps : ∀ x, fs.Binds env x → gs.Binds env x
  gains : ∀ x, gs.Binds env x → fs.Binds env x ∨ new x

theorem Frames.Keeps.confined {env : Nat} {new : String → Prop} {fs gs : Frames}
    (h : Frames.Keeps env new fs gs) (hroot : globals ∈ fs.chain env) :
    Frames.Confined env new fs gs where
  size := h.size
  names i _ hne x := by
    refine ⟨fun hb => ?_, h.binds i x⟩
    rcases h.adds i x hb with hold | ⟨heq, _⟩
    · exact hold
    · exact absurd heq hne
  values i _ hi := by
    have hne : i ≠ globals := by
      rintro rfl
      exact hi hroot
    exact h.values i hi hne
  keeps x hb := h.binds env x hb
  gains x hb := (h.adds env x hb).imp_right And.right

-- The names that the statements of a block declare in the frame of the block.
def Stmt.introducedBy (body : List Stmt) (x : String) : Prop :=
  ∃ s ∈ body, s.introduces = some x

-- The discipline of all programs. All that is known of a frame is that its chain ends at the
-- globals, where the handlers of servers run.
def rooted : Discipline Unit where
  expr _ _ _ := True
  stmt _ _ _ _ := True
  call _ _ := True
  inside _ c := c
  project c _ := c
  holds _ _ env w := globals ∈ w.frames.chain env
  func _ _ := True
  signal _ _ := True
  ends _ := True
  allowed _ := True

namespace rooted

variable {n : Nat} {k : Option Activation} {env : Nat} {w t : World}

theorem block (n : Nat) (body : List Stmt) : rooted.Block n () body :=
  .of_forall fun _ _ => trivial

theorem opened_defined (h : globals ∈ w.frames.chain env) (name : String) (v : Value) :
    globals ∈ ((w.opened env).defined w.frames.size name v).frames.chain w.frames.size :=
  ((w.opened env).moves_defined _ name v).rooted (World.rooted_opened h)

theorem enters (f : Function) (h : globals ∈ w.frames.chain env) :
    rooted.Enters n f env w () () where
  start := World.rooted_opened h
  default _ _ _ _ := trivial
  param p _ t v ht := (t.moves_defined _ p.name v).rooted ht
  bound _ _ ht _ := ht
  body := by
    cases n with
    | zero => trivial
    | succ n => exact block n f.body
  ends _ _ := trivial

theorem lawful : rooted.Lawful where
  block _ body _ := block _ body
  stable h hm := hm.rooted h
  opens _ _ _ h := World.rooted_opened h
  iterates v _ h := opened_defined h _ v
  projects v _ h := opened_defined h _ v
  follows _ _ _ _ h := h
  declares {_ _ _ _ _ env w x} v _ _ h := (w.moves_defined env x v).rooted h
  defines {_ _ _ _ _ _ _ _ _ env w} _ h := ⟨trivial, (w.moves_learned env _).rooted h⟩
  enters _ h _ _ := ⟨(), (), enters _ h⟩
  serves {_ _ _ _ _ w} _ _ h :=
    ⟨(), fun _ => Frames.mem_chain_self w.frames (World.globals_lt_size h), trivial⟩

theorem inv (w : World) : rooted.Inv w :=
  ⟨fun _ _ _ => trivial, fun _ _ => trivial⟩

-- A contract that asks for nothing, so that the watched run is one to compare with.
abbrev unwatched : Contract := .avoiding fun _ => false

theorem agrees (n : Nat) : rooted.Agrees n (unwatched.watched n) (evaluators n) := by
  refine Discipline.watched_agrees lawful (Discipline.ensures_avoiding fun s _ => ?_) n
  intro f cause _ _
  rfl

theorem confined {α : Type} {new : String → Prop} {x y : Exec α} {Q : α → World → Prop}
    (h : rooted.Runs env new x y w Q) (hroot : globals ∈ w.frames.chain env) :
    Frames.Confined env new w.frames (Outcome.world (y w)).frames :=
  h.meets.moves.frames.confined hroot

-- The names that a block adds are those that its statements introduce.
theorem runs_block (n : Nat) (body : List Stmt) (hroot : globals ∈ w.frames.chain env) :
    rooted.Runs env (Stmt.introducedBy body) (Eval.block (unwatched.watched n none) env body)
      (Eval.block (evaluators n) env body) w fun _ _ => True := by
  induction body generalizing w with
  | nil => exact .pure (inv w) trivial
  | cons s rest ih =>
    have hhead : ∀ x, s.introduces = some x → Stmt.introducedBy (s :: rest) x :=
      fun x hx => ⟨s, List.mem_cons_self, hx⟩
    have htail : ∀ x, Stmt.introducedBy rest x → Stmt.introducedBy (s :: rest) x :=
      fun x ⟨t, ht, hx⟩ => ⟨t, List.mem_cons_of_mem s ht, hx⟩
    have hallowed : rooted.stmt n () s () := trivial
    have hs := ((agrees n).stmt (k := none) hallowed hroot (inv w)).mono
      (R := fun _ _ => True) hhead fun _ _ _ _ => trivial
    refine .bind hs fun signal t hm ht _ => ?_
    cases signal with
    | normal => exact (ih (hm.rooted hroot)).mono htail fun _ _ _ _ => trivial
    | ret v | brk | cont => exact .pure ht trivial

end rooted

-- Whatever is evaluated in a frame, and however it ends, stays in that frame: an expression, a
-- call and a block in a frame of its own add no name to any frame, a statement adds the name
-- that it introduces, and a block those that its statements introduce.
theorem evaluation_is_confined (fuel : Nat) {w : World} {env : Nat}
    (hroot : globals ∈ w.frames.chain env) :
    (∀ e, Frames.Confined env noName w.frames
      (Outcome.world (evalExpr fuel env e w)).frames) ∧
    (∀ f args, Frames.Confined env noName w.frames
      (Outcome.world (callFunction fuel env f args w)).frames) ∧
    (∀ body, Frames.Confined env noName w.frames
      (Outcome.world (Eval.inFrame (evaluators fuel) env body w)).frames) ∧
    (∀ s, Frames.Confined env (fun x => s.introduces = some x) w.frames
      (Outcome.world (execStmt fuel env s w)).frames) ∧
    ∀ body, Frames.Confined env (Stmt.introducedBy body) w.frames
      (Outcome.world (Eval.block (evaluators fuel) env body w)).frames := by
  have hagrees := rooted.agrees fuel
  have hinv := rooted.inv w
  refine ⟨fun e => ?_, fun f args => ?_, fun body => ?_, fun s => ?_, fun body => ?_⟩
  · exact rooted.confined (hagrees.expr (k := none) (c := ()) trivial hroot hinv) hroot
  · have hcall : rooted.call fuel () := trivial
    have hholds : rooted.holds none () env w := hroot
    exact rooted.confined (hagrees.call (k := none) hcall hholds (.inl trivial) hinv) hroot
  · have hs : rooted.stmt (fuel + 1) () (.seq body) () := trivial
    exact rooted.confined (hagrees.inFrame rooted.lawful (k := none) hs rfl List.mem_cons_self
      hroot hinv) hroot
  · have hs : rooted.stmt fuel () s () := trivial
    exact rooted.confined (hagrees.stmt (k := none) hs hroot hinv) hroot
  · exact rooted.confined (rooted.runs_block fuel body hroot) hroot

-- A world with two frames under the globals, of which neither sees the other.
def siblings : World :=
  { World.fresh (.captured "") ⟨true, .loopback⟩ with
    frames := (Frames.root.child globals).child globals }

theorem chain_siblings : siblings.frames.chain 2 = [2, globals] := by
  have hinner : (Frames.root.child globals).chain globals = [globals] := by
    have hlt : globals < Frames.root.size := Nat.zero_lt_one
    rw [Frames.chain_child_of_lt Frames.root globals hlt]
    simp [Frames.chain, Frames.root, globals]
  have hlt : globals < (Frames.root.child globals).size := by decide
  have houter := Frames.chain_child_self (Frames.root.child globals) hlt
  rw [hinner] at houter
  exact houter

-- No statement that runs in one of them changes anything in the other.
theorem sibling_is_untouched :
    globals ∈ siblings.frames.chain 2 ∧ ∀ fuel s,
      (Outcome.world (execStmt fuel 2 s siblings)).frames.bindings 1 =
        siblings.frames.bindings 1 := by
  have hroot : globals ∈ siblings.frames.chain 2 := by
    simp [chain_siblings]
  refine ⟨hroot, fun fuel s => ?_⟩
  obtain ⟨-, -, -, hstmt, -⟩ := evaluation_is_confined fuel hroot
  refine (hstmt s).values 1 (by decide) ?_
  simp [chain_siblings, globals]

end Parlance
