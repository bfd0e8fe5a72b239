import Parlance.Proofs.Discipline

namespace Parlance

namespace World.Moves

-- What ran among the globals could have run anywhere.
theorem of_globals {w t : World} (env : Nat) (h : w.Moves globals noName t) :
    w.Moves env noName t := by
  refine ⟨{ h.frames with adds := fun i name hb => ?_, values := fun i _ hg => ?_ },
    h.functions, h.held⟩
  · exact .inl ((h.frames.binds_iff i fun hf => hf).mp hb)
  · exact h.frames.values i (fun hi => hg (Nat.le_zero.mp (Frames.le_of_mem_chain hi))) hg

end World.Moves

namespace Discipline

variable {κ : Type} {D : Discipline κ} {α β : Type}

-- All functions stay fine when no function and no server is added.
theorem Inv.of_same {w t : World} (hw : D.Inv w) (hfunctions : t.functions = w.functions)
    (hservers : t.heap.servers = w.heap.servers) (hfunc : ∀ f, D.func f w → D.func f t) :
    D.Inv t := by
  refine ⟨fun name f hf => hfunc f (hw.functions name f ?_), fun s hs => hfunc _ (hw.servers s ?_)⟩
  · rw [← hfunctions]
    exact hf
  · rw [← hservers]
    exact hs

-- There is no function in a fresh world.
theorem inv_fresh (D : Discipline κ) (console : Console) (options : Options) :
    D.Inv (World.fresh console options) where
  functions name f h := by
    rw [World.fresh, Table.get?_empty] at h
    cases h
  servers s hs := by cases Array.not_mem_empty s hs

namespace Lawful

variable {f : Function} {w t : World} {env : Nat} {new : String → Prop}

theorem func_moves (L : D.Lawful) (hm : w.Moves env new t) (hf : D.func f w) : D.func f t :=
  L.binds (fun name => hm.frames.binds globals name) hm.functions hf

theorem func_opened (L : D.Lawful) (env : Nat) (hf : D.func f w) : D.func f (w.opened env) :=
  L.binds (fun name => (Frames.binds_child_iff w.frames env globals name).mpr) (fun _ h => h) hf

theorem inv_opened (L : D.Lawful) (env : Nat) (hw : D.Inv w) : D.Inv (w.opened env) :=
  hw.of_same rfl rfl fun _ => L.func_opened env

theorem inv_defined (L : D.Lawful) (env : Nat) (name : String) (v : Value) (hw : D.Inv w) :
    D.Inv (w.defined env name v) :=
  hw.of_same rfl rfl fun _ => L.func_moves (w.moves_defined env name v)

theorem inv_learned (L : D.Lawful) (hf : D.func f (w.learned f)) (hw : D.Inv w) :
    D.Inv (w.learned f) := by
  have hmoves := w.moves_learned globals f
  refine ⟨fun name g hg => ?_, fun s hs => L.func_moves hmoves (hw.servers s hs)⟩
  simp only [World.learned, Table.get?_insert] at hg
  split at hg
  · cases hg
    exact hf
  · exact L.func_moves hmoves (hw.functions name g hg)

theorem inv_quiet (L : D.Lawful) (hq : w.Quiet t) (hw : D.Inv w) : D.Inv t :=
  hw.of_same hq.functions hq.servers fun _ => L.func_moves (hq.moves globals noName)

theorem inv_heap (L : D.Lawful) {heap : Heap} (hservers : heap.servers = w.heap.servers)
    (hw : D.Inv w) : D.Inv { w with heap } :=
  hw.of_same rfl hservers fun _ => L.binds (fun _ hb => hb) fun _ h => h

theorem inv_closed (L : D.Lawful) {k : Option Activation} {c : κ} (hc : D.holds k c env w)
    (hm : (w.opened env).Moves w.frames.size new t) (ht : D.Inv t) :
    D.Inv (t.closed w.frames.size) := by
  have hsize : t.frames.size = w.frames.size + 1 :=
    hm.frames.size.trans (Frames.size_child w.frames env)
  exact ht.of_same rfl rfl fun _ => L.closes hc hsize

end Lawful

-- An outcome that keeps to the discipline: what has changed is no more than what may change,
-- all functions are fine, and the computation gave what `Q` says or stopped as it may.
def Meets (D : Discipline κ) (env : Nat) (new : String → Prop) (w : World)
    (Q : α → World → Prop) : Outcome α → Prop
  | .ok a t => w.Moves env new t ∧ D.Inv t ∧ Q a t
  | .error s t => w.Moves env new t ∧ D.Inv t ∧ D.allowed s

theorem Meets.inv {env : Nat} {new : String → Prop} {w : World} {Q : α → World → Prop}
    {r : Outcome α} (h : D.Meets env new w Q r) : D.Inv r.world := by
  cases r with
  | ok a t => exact h.2.1
  | error s t => exact h.2.1

theorem Meets.moves {env : Nat} {new : String → Prop} {w : World} {Q : α → World → Prop}
    {r : Outcome α} (h : D.Meets env new w Q r) : w.Moves env new r.world := by
  cases r with
  | ok a t => exact h.1
  | error s t => exact h.1

-- Two computations with one outcome, which keeps to the discipline. The first is the one
-- that is watched; the rules below take both apart in parallel.
structure Runs (D : Discipline κ) (env : Nat) (new : String → Prop) (x y : Exec α) (w : World)
    (Q : α → World → Prop) : Prop where
  same : x w = y w
  meets : D.Meets env new w Q (y w)

abbrev noMatter : α → World → Prop := fun _ _ => True

namespace Runs

variable {env : Nat} {new more : String → Prop} {w t : World} {x y : Exec α}
  {Q R : α → World → Prop} {S : β → World → Prop}

theorem mono (h : D.Runs env new x y w Q) (hnew : ∀ name, new name → more name)
    (hQ : ∀ a t, w.Moves env new t → Q a t → R a t) : D.Runs env more x y w R := by
  refine ⟨h.same, ?_⟩
  have hm := h.meets
  cases hy : y w with
  | ok a t =>
    rw [hy] at hm
    exact ⟨hm.1.mono hnew, hm.2.1, hQ a t hm.1 hm.2.2⟩
  | error s t =>
    rw [hy] at hm
    exact ⟨hm.1.mono hnew, hm.2⟩

theorem weaken (h : D.Runs env noName x y w Q) : D.Runs env new x y w Q :=
  h.mono (fun _ hf => hf.elim) fun _ _ _ hq => hq

theorem anywhere (h : D.Runs env new x y w Q) : D.Runs env anyName x y w Q :=
  h.mono (fun _ _ => trivial) fun _ _ _ hq => hq

theorem imp (h : D.Runs env new x y w Q) (hQ : ∀ a t, w.Moves env new t → Q a t → R a t) :
    D.Runs env new x y w R :=
  h.mono (fun _ hn => hn) hQ

theorem pure {a : α} (hw : D.Inv w) (hQ : Q a w) : D.Runs env new (pure a) (pure a) w Q :=
  ⟨rfl, .refl env new w, hw, hQ⟩

theorem stop {s : Stop} (hw : D.Inv w) (hs : D.allowed s) :
    D.Runs env new (Exec.stop s) (Exec.stop s) w Q :=
  ⟨rfl, .refl env new w, hw, hs⟩

theorem get {f g : World → Exec β} (h : D.Runs env new (f w) (g w) w S) :
    D.Runs env new (MonadState.get >>= f) (MonadState.get >>= g) w S :=
  ⟨h.same, h.meets⟩

-- What follows starts in a world that the first computation can have led to.
theorem bind {f g : α → Exec β} (h : D.Runs env new x y w Q)
    (hf : ∀ a t, w.Moves env new t → D.Inv t → Q a t → D.Runs env new (f a) (g a) t S) :
    D.Runs env new (x >>= f) (y >>= g) w S := by
  have hm := h.meets
  cases hy : y w with
  | error s t =>
    rw [hy] at hm
    refine ⟨?_, ?_⟩ <;> simp only [Exec.bind_apply, h.same, hy]
    exact hm
  | ok a t =>
    rw [hy] at hm
    obtain ⟨hmoves, ht, hQ⟩ := hm
    have hg := hf a t hmoves ht hQ
    refine ⟨?_, ?_⟩ <;> simp only [Exec.bind_apply, h.same, hy]
    · exact hg.same
    · have hm' := hg.meets
      cases hga : g a t with
      | ok b u =>
        rw [hga] at hm'
        exact ⟨hmoves.trans hm'.1, hm'.2⟩
      | error s u =>
        rw [hga] at hm'
        exact ⟨hmoves.trans hm'.1, hm'.2⟩

-- A computation that only reads, before one that may add names.
theorem after {f g : α → Exec β} (h : D.Runs env noName x y w Q)
    (hf : ∀ a t, w.Moves env noName t → D.Inv t → Q a t → D.Runs env new (f a) (g a) t S) :
    D.Runs env new (x >>= f) (y >>= g) w S := by
  refine bind (Q := fun a t => w.Moves env noName t ∧ Q a t)
    (h.mono (fun _ hn => hn.elim) fun a t hm hq => ⟨hm, hq⟩) fun a t _ ht hq => ?_
  exact hf a t hq.1 ht hq.2

theorem of_globals (h : D.Runs globals noName x y w Q) : D.Runs env noName x y w Q := by
  have hm := h.meets
  refine ⟨h.same, ?_⟩
  cases hy : y w with
  | ok a t =>
    rw [hy] at hm
    exact ⟨hm.1.of_globals env, hm.2⟩
  | error s t =>
    rw [hy] at hm
    exact ⟨hm.1.of_globals env, hm.2⟩

theorem quiet (L : D.Lawful) (hx : Harmless x) (hw : D.Inv w) :
    D.Runs env new x x w fun _ t => w.Quiet t := by
  refine ⟨rfl, ?_⟩
  cases hxw : x w with
  | ok a t => exact ⟨(hx.ok hxw).moves env new, L.inv_quiet (hx.ok hxw) hw, hx.ok hxw⟩
  | error s t =>
    have ⟨hq, hs⟩ := hx.error hxw
    exact ⟨hq.moves env new, L.inv_quiet hq hw, L.ordinary hs⟩

theorem harmless (L : D.Lawful) (hx : Harmless x) (hw : D.Inv w) :
    D.Runs env new x x w noMatter :=
  (quiet L hx hw).imp fun _ _ _ _ => trivial

theorem reading {f : Heap → Except Stop α} (hw : D.Inv w)
    (herror : ∀ s, f w.heap = .error s → D.allowed s) :
    D.Runs env new (Exec.reading f) (Exec.reading f) w noMatter := by
  refine ⟨rfl, ?_⟩
  cases hf : f w.heap with
  | ok a =>
    simp only [Exec.reading, hf]
    exact ⟨.refl env new w, hw, trivial⟩
  | error s =>
    simp only [Exec.reading, hf]
    exact ⟨.refl env new w, hw, herror s hf⟩

theorem define (L : D.Lawful) {name : String} {v : Value} {Q : Unit → World → Prop}
    (hnew : new name) (hw : D.Inv w) (hQ : Q () (w.defined env name v)) :
    D.Runs env new (Exec.define env name v) (Exec.define env name v) w Q := by
  have hmoves : w.Moves env new (w.defined env name v) :=
    (w.moves_defined env name v).mono fun x hx => hx ▸ hnew
  exact ⟨rfl, hmoves, L.inv_defined env name v hw, hQ⟩

theorem assign (L : D.Lawful) {name : String} {v : Value} {owner : Nat}
    (h : w.frames.owner? name env = some owner) (hw : D.Inv w) :
    D.Runs env noName (Exec.define owner name v) (Exec.define owner name v) w noMatter :=
  ⟨rfl, World.moves_assigned h v, L.inv_defined owner name v hw, trivial⟩

theorem learn (L : D.Lawful) {f : Function} {Q : Unit → World → Prop}
    (hf : D.func f (w.learned f)) (hw : D.Inv w) (hQ : Q () (w.learned f)) :
    D.Runs env noName (modify fun w : World => w.learned f) (modify fun w => w.learned f) w Q :=
  ⟨rfl, w.moves_learned env f, L.inv_learned hf hw, hQ⟩

theorem addServer (L : D.Lawful) {s : Server} (hs : D.func s.handler w) (hw : D.Inv w) :
    D.Runs env new (Exec.onHeap fun h => h.addServer s) (Exec.onHeap fun h => h.addServer s) w
      noMatter := by
  have hbinds : ∀ f, D.func f w → D.func f { w with heap := (w.heap.addServer s).2 } :=
    fun _ => L.binds (fun _ hb => hb) fun _ h => h
  have hmoves : w.Moves env new { w with heap := (w.heap.addServer s).2 } :=
    ⟨.refl env new w.frames, fun _ h => h, fun _ h => h⟩
  refine ⟨rfl, hmoves, ⟨fun name f hf => ?_, fun r hr => ?_⟩, trivial⟩
  · exact hbinds f (hw.functions name f hf)
  · rcases Array.mem_push.mp hr with hr | rfl
    · exact hbinds _ (hw.servers r hr)
    · exact hbinds _ hs

theorem atLine (L : D.Lawful) {line : Nat} (hline : D.line line) (h : D.Runs env new x y w Q) :
    D.Runs env new (Exec.atLine line x) (Exec.atLine line y) w Q := by
  have hm := h.meets
  refine ⟨by simp only [Exec.atLine, h.same], ?_⟩
  cases hy : y w with
  | ok a t =>
    rw [hy] at hm
    simpa only [Exec.atLine, hy] using hm
  | error s t =>
    rw [hy] at hm
    obtain ⟨hmoves, ht, hs⟩ := hm
    cases s with
    | fault f =>
      simp only [Exec.atLine, hy]
      exact ⟨hmoves, ht, L.placed hs line hline⟩
    | crash | outOfFuel =>
      simp only [Exec.atLine, hy]
      exact ⟨hmoves, ht, hs⟩

-- What `attempt` gives: a value, or a failure that may happen.
def Attempted (D : Discipline κ) (Q : α → World → Prop) : Except Fault α → World → Prop
  | .ok a, t => Q a t
  | .error f, _ => D.allowed (.fault f)

theorem attempt (L : D.Lawful) (h : D.Runs env new x y w Q) :
    D.Runs env new (Exec.attempt x) (Exec.attempt y) w (Attempted D Q) := by
  have hm := h.meets
  refine ⟨by simp only [Exec.attempt, h.same], ?_⟩
  cases hy : y w with
  | ok a t =>
    rw [hy] at hm
    simp only [Exec.attempt, hy]
    exact hm
  | error s t =>
    rw [hy] at hm
    obtain ⟨hmoves, ht, hs⟩ := hm
    cases s with
    | fault f =>
      simp only [Exec.attempt, hy]
      exact ⟨hmoves, ht, hs⟩
    | crash =>
      simp only [Exec.attempt, hy]
      exact ⟨hmoves, ht, L.ordinary (Stop.ordinary_runtime rfl)⟩
    | outOfFuel =>
      simp only [Exec.attempt, hy]
      exact ⟨hmoves, ht, hs⟩

-- The names that are added in a frame of its own are gone with the frame.
theorem withFrame (L : D.Lawful) {k : Option Activation} {c : κ} {f g : Nat → Exec α}
    {P : α → World → Prop} (hc : D.holds k c env w)
    (h : D.Runs w.frames.size anyName (f w.frames.size) (g w.frames.size) (w.opened env) P) :
    D.Runs env noName (Exec.withFrame env f) (Exec.withFrame env g) w
      fun a t => ∃ u, t = u.closed w.frames.size ∧ P a u := by
  have hm := h.meets
  have hsame : f w.frames.size { w with frames := w.frames.child env } =
      g w.frames.size (w.opened env) := h.same
  refine ⟨by simp only [Exec.withFrame, hsame]; rfl, ?_⟩
  cases hg : g w.frames.size { w with frames := w.frames.child env } with
  | ok a t =>
    rw [World.opened, hg] at hm
    obtain ⟨hmoves, ht, hP⟩ := hm
    simp only [Exec.withFrame, hg]
    exact ⟨World.moves_closed hmoves, L.inv_closed hc hmoves ht, t, rfl, hP⟩
  | error s t =>
    rw [World.opened, hg] at hm
    obtain ⟨hmoves, ht, hs⟩ := hm
    simp only [Exec.withFrame, hg]
    exact ⟨World.moves_closed hmoves, L.inv_closed hc hmoves ht, hs⟩

-- What an operation on a client does while it holds the client.
theorem holding (L : D.Lawful) {ref : Nat} {P : α → World → Prop}
    (hwait : (w.heap.client ref).held = true → D.allowed .outOfFuel) (hw : D.Inv w)
    (h : D.Runs env new x y { w with heap := w.heap.hold ref true } P) :
    D.Runs env new (Eval.holding ref x) (Eval.holding ref y) w noMatter := by
  have hm := h.meets
  refine ⟨by simp only [Eval.holding, h.same], ?_⟩
  unfold Eval.holding
  split
  · next hheld => exact ⟨.refl env new w, hw, hwait hheld⟩
  · -- What is held at the end was held before the client was taken.
    have hback : ∀ t, World.Moves env new { w with heap := w.heap.hold ref true } t →
        w.Moves env new { t with heap := t.heap.hold ref false } := by
      intro t hmoves
      refine ⟨hmoves.frames, hmoves.functions, fun other hheld => ?_⟩
      obtain ⟨hne, hheld⟩ := Heap.held_release hheld
      exact (Heap.held_hold (hmoves.held other hheld)).resolve_left hne
    cases hy : y { w with heap := w.heap.hold ref true } with
    | ok a t =>
      rw [hy] at hm
      exact ⟨hback t hm.1, L.inv_heap rfl hm.2.1, trivial⟩
    | error s t =>
      rw [hy] at hm
      exact ⟨hback t hm.1, L.inv_heap rfl hm.2.1, hm.2.2⟩

theorem mapM {f g : α → Exec β} (as : List α) (hw : D.Inv w)
    (h : ∀ a ∈ as, ∀ t, w.Moves env noName t → D.Inv t →
      D.Runs env noName (f a) (g a) t noMatter) :
    D.Runs env noName (as.mapM f) (as.mapM g) w noMatter := by
  induction as generalizing w with
  | nil => exact .pure hw trivial
  | cons a as ih =>
    rw [List.mapM_cons, List.mapM_cons]
    refine .bind (h a List.mem_cons_self w (.refl env noName w) hw) fun _ t hm ht _ => ?_
    refine .bind (ih ht fun b hb u hu => ?_) fun _ u _ hu _ => .pure hu trivial
    exact h b (List.mem_cons_of_mem a hb) u (hm.trans hu)

end Runs

end Discipline

end Parlance
