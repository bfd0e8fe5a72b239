import Parlance.Proofs.Discipline

namespace Parlance

-- How worlds differ that are to behave alike: in the way to run the workers of parallel blocks,
-- and in the console.
structure Switch where
  parallel : Bool → Bool
  console : Console → Console

def World.switched (switch : Switch) (w : World) : World :=
  { w with
    console := switch.console w.console
    options := { w.options with parallel := switch.parallel w.options.parallel } }

-- The world in which a client is held, or is not.
def World.hold (w : World) (ref : Nat) (held : Bool) : World :=
  { w with heap := w.heap.hold ref held }

-- A reason to stop, placed at a line unless it has one.
def Stop.orLine (line : Nat) : Stop → Stop
  | .fault f => .fault (f.orLine line)
  | s => s

namespace Outcome

variable {α β : Type}

-- What comes of an outcome that a computation goes on from.
def next (r : Outcome α) (g : α → Exec β) : Outcome β :=
  match r with
  | .ok a w => g a w
  | .error s w => .error s w

-- The outcome of a computation in a frame that is gone afterwards.
def closed (n : Nat) : Outcome α → Outcome α
  | .ok a w => .ok a (w.closed n)
  | .error s w => .error s (w.closed n)

-- The outcome of an operation that gives its client back.
def released (ref : Nat) : Outcome α → Outcome α
  | .ok a w => .ok a (w.hold ref false)
  | .error s w => .error s (w.hold ref false)

def orLine (line : Nat) : Outcome α → Outcome α
  | .ok a w => .ok a w
  | .error s w => .error (s.orLine line) w

end Outcome

namespace Exec

variable {α β : Type}

theorem bind_eq_next (x : Exec α) (g : α → Exec β) (w : World) :
    (x >>= g) w = Outcome.next (x w) g := by
  rw [bind_apply]
  rfl

theorem withFrame_eq_closed (env : Nat) (body : Nat → Exec α) (w : World) :
    withFrame env body w = Outcome.closed w.frames.size (body w.frames.size (w.opened env)) := by
  rfl

theorem holding_of_held {ref : Nat} {w : World} (x : Exec α)
    (h : (w.heap.client ref).held = true) : Eval.holding ref x w = .error .outOfFuel w :=
  if_pos h

theorem holding_of_free {ref : Nat} {w : World} (x : Exec α)
    (h : (w.heap.client ref).held = false) :
    Eval.holding ref x w = Outcome.released ref (x (w.hold ref true)) :=
  if_neg (Bool.eq_false_iff.mp h)

theorem atLine_eq_orLine (line : Nat) (x : Exec α) (w : World) :
    atLine line x w = Outcome.orLine line (x w) := by
  unfold atLine
  cases x w with
  | ok a t => rfl
  | error s t => cases s <;> rfl

end Exec

-- An assignment that stores a value in an element of a collection.
def Expr.isStore : Expr → Bool
  | assign _ (access _ _) _ => true
  | _ => false

-- The dictionaries of a heap are in another one, and hold what they held.
def Heap.KeepsDicts (h h' : Heap) : Prop :=
  ∀ ref, ref < h.dicts.size → h'.dicts[ref]? = h.dicts[ref]?

theorem Heap.KeepsDicts.of_eq {h h' : Heap} (heq : h'.dicts = h.dicts) : h.KeepsDicts h' :=
  fun _ _ => heq ▸ rfl

theorem Heap.keepsDicts_place (h : Heap) (d : Draft) : h.KeepsDicts (h.place d).2 := by
  cases d with
  | value v => exact .of_eq rfl
  | list items => exact .of_eq rfl
  | dict entries => exact fun ref href => by simp [place, Array.getElem?_push, Nat.ne_of_lt href]

theorem Heap.dicts_leave (h : Heap) (ref : Nat) : (h.leave ref).dicts = h.dicts := by
  unfold leave
  cases (h.client ref).connection <;> rfl

-- What relates two ways to run programs. In the second one the worlds are switched, and there may
-- be `more` fuel. Programs are made of `sound` statements and run in worlds with `inv`. As long as
-- the first way does not stop, the second one does the same; when it stops, `excused` says how the
-- second one may end.
structure Simulation where
  switch : Switch
  more : Prop
  sound : Stmt → Prop
  inv : World → Prop
  excused : {α : Type} → Stop → World → Outcome α → Prop

namespace Simulation

structure Lawful (M : Simulation) : Prop where
  -- A switched console takes the same texts and gives the same lines.
  writes : ∀ c text, M.switch.console (c.write text) = (M.switch.console c).write text
  reads : ∀ c, (M.switch.console c).readLine = (c.readLine.1, M.switch.console c.readLine.2)
  -- Sound statements contain and define nothing else.
  bodies : ∀ {s}, M.sound s → ∀ body ∈ s.bodies, ∀ t ∈ body, M.sound t
  functions : ∀ {w name f}, M.inv w → w.functions.get? name = some f → ∀ s ∈ f.body, M.sound s
  -- What programs do to worlds.
  frames : ∀ {w}, M.inv w → ∀ frames, M.inv { w with frames }
  write : ∀ {w}, M.inv w → ∀ text, M.inv { w with console := w.console.write text }
  read : ∀ {w}, M.inv w → M.inv { w with console := w.console.readLine.2 }
  asks : ∀ {w}, M.inv w → ∀ asked, M.inv { w with asked }
  heap : ∀ {w}, M.inv w → ∀ heap : Heap, heap.clients = w.heap.clients →
    heap.servers = w.heap.servers → heap.connections = w.heap.connections →
    w.heap.KeepsDicts heap → M.inv { w with heap }
  listens : ∀ {w turn ref}, M.inv w →
    w.options.host.network.refusal? turn w.listeners (w.heap.server ref).endpoint = none →
    M.inv { w with listeners := ⟨(w.heap.server ref).endpoint, ref⟩ :: w.listeners }
  closes : ∀ {w ref}, M.inv w → (w.heap.client ref).held = false →
    M.inv { w with heap := w.heap.leave ref }
  server : ∀ {w}, M.inv w → ∀ server, M.inv { w with heap := (w.heap.addServer server).2 }
  client : ∀ {name host port line w}, M.sound (.client name host port line) → M.inv w →
    ∀ endpoint, M.inv { w with heap := (w.heap.addClient endpoint).2 }
  learned : ∀ {name returns params body line w},
    M.sound (.function name returns params body line) → M.inv w →
    M.inv (w.learned ⟨name, returns, params, body, line⟩)
  -- The second way may stop as the first one does, and with more fuel it may do anything when the
  -- first one has run out of it. What is excused stays so on the way out.
  same : ∀ {α : Type} {w}, M.inv w →
    ∀ s, M.excused s w (.error s (w.switched M.switch) : Outcome α)
  spent : M.more → ∀ {α : Type} {w}, M.inv w → ∀ r : Outcome α, M.excused .outOfFuel w r
  next : ∀ {α β : Type} {s w} {r : Outcome α}, M.excused s w r →
    ∀ g : α → Exec β, M.excused s w (r.next g)
  closed : ∀ {α : Type} {s w} {r : Outcome α}, M.excused s w r →
    ∀ n, M.excused s (w.closed n) (r.closed n)
  orLine : ∀ {α : Type} {s w} {r : Outcome α}, M.excused s w r →
    ∀ line, M.excused (s.orLine line) w (r.orLine line)

-- Fuel for both ways.
def Fueled (M : Simulation) (n m : Nat) : Prop :=
  n = m ∨ M.more ∧ n ≤ m

theorem Fueled.zero {M : Simulation} {m : Nat} (h : M.Fueled 0 m) : m = 0 ∨ M.more :=
  h.imp Eq.symm And.left

theorem Fueled.succ {M : Simulation} {n m : Nat} (h : M.Fueled (n + 1) m) :
    ∃ k, m = k + 1 ∧ M.Fueled n k := by
  rcases h with rfl | ⟨hmore, hle⟩
  · exact ⟨n, rfl, .inl rfl⟩
  · exact ⟨m - 1, by omega, .inr ⟨hmore, by omega⟩⟩

-- Worlds stay as they should be when a value is stored in an element of a collection.
def Stores (M : Simulation) : Prop :=
  ∀ {w}, M.inv w → ∀ v slot, M.inv { w with heap := w.heap.put v slot }

-- The computation `y` does in switched worlds what `x` does.
structure Tracks (M : Simulation) {α : Type} (x y : Exec α) : Prop where
  ok : ∀ {w a t}, M.inv w → x w = .ok a t →
    M.inv t ∧ y (w.switched M.switch) = .ok a (t.switched M.switch)
  error : ∀ {w s t}, M.inv w → x w = .error s t → M.excused s t (y (w.switched M.switch))

namespace Tracks

open Exec

variable {M : Simulation} {α β : Type} {x y : Exec α}

theorem of_pure (a : α) : M.Tracks (pure a) (pure a) where
  ok hw h := by
    cases h
    exact ⟨hw, rfl⟩
  error _ h := by cases h

theorem of_stop (L : M.Lawful) (s : Stop) : M.Tracks (stop s : Exec α) (stop s) where
  ok _ h := by cases h
  error hw h := by
    cases h
    exact L.same hw s

-- What would come after a stop does not matter.
theorem of_stop_bind (L : M.Lawful) (s : Stop) (f g : α → Exec β) :
    M.Tracks (stop s >>= f) (stop s >>= g) :=
  of_stop L s

theorem of_spent (L : M.Lawful) (hmore : M.more) : M.Tracks outOfFuel y where
  ok _ h := by cases h
  error hw h := by
    cases h
    exact L.spent hmore hw _

theorem bind (L : M.Lawful) {f g : α → Exec β} (hx : M.Tracks x y)
    (hf : ∀ a, M.Tracks (f a) (g a)) : M.Tracks (x >>= f) (y >>= g) where
  ok {w b t} hw h := by
    rw [bind_eq_next] at h ⊢
    cases hcase : x w with
    | ok a u =>
      rw [hcase] at h
      obtain ⟨hu, hy⟩ := hx.ok hw hcase
      rw [hy]
      exact (hf a).ok hu h
    | error s u =>
      rw [hcase] at h
      cases h
  error {w s t} hw h := by
    rw [bind_eq_next] at h ⊢
    cases hcase : x w with
    | ok a u =>
      rw [hcase] at h
      obtain ⟨hu, hy⟩ := hx.ok hw hcase
      rw [hy]
      exact (hf a).error hu h
    | error s u =>
      rw [hcase] at h
      cases h
      exact L.next (hx.error hw hcase) g

-- Nothing but the switch tells the two worlds apart.
theorem of_get {f g : World → Exec α}
    (h : ∀ w, M.inv w → M.Tracks (f w) (g (w.switched M.switch))) :
    M.Tracks (get >>= f) (get >>= g) where
  ok hw hx := (h _ hw).ok hw hx
  error hw hx := (h _ hw).error hw hx

theorem of_modifyGet {f : World → α × World}
    (hsame : ∀ w, f (w.switched M.switch) = ((f w).1, (f w).2.switched M.switch))
    (hinv : ∀ w, M.inv w → M.inv (f w).2) :
    M.Tracks (modifyGet f : Exec α) (modifyGet f) where
  ok {w a t} hw h := by
    cases h
    refine ⟨hinv w hw, ?_⟩
    change EStateM.Result.ok (f (w.switched M.switch)).1 (f (w.switched M.switch)).2 = _
    rw [hsame]
  error _ h := by cases h

theorem of_modify {f : World → World}
    (hsame : ∀ w, f (w.switched M.switch) = (f w).switched M.switch)
    (hinv : ∀ w, M.inv w → M.inv (f w)) : M.Tracks (modify f : Exec PUnit) (modify f) where
  ok {w a t} hw h := by
    cases h
    refine ⟨hinv w hw, ?_⟩
    rw [modify_apply, hsame]
  error _ h := by cases h

theorem of_reading (L : M.Lawful) (f : Heap → Except Stop α) :
    M.Tracks (reading f) (reading f) where
  ok {w a t} hw h := by
    have hheap : (w.switched M.switch).heap = w.heap := rfl
    cases hf : f w.heap with
    | ok b =>
      simp only [reading, hheap, hf] at h ⊢
      cases h
      exact ⟨hw, rfl⟩
    | error s =>
      simp only [reading, hf] at h
      cases h
  error {w s t} hw h := by
    have hheap : (w.switched M.switch).heap = w.heap := rfl
    cases hf : f w.heap with
    | ok b =>
      simp only [reading, hf] at h
      cases h
    | error s =>
      simp only [reading, hheap, hf] at h ⊢
      cases h
      exact L.same hw s

theorem of_require (L : M.Lawful) (x : Except Stop α) : M.Tracks (require x) (require x) :=
  of_reading L fun _ => x

theorem of_display (v : Value) : M.Tracks (display v) (display v) where
  ok hw h := by
    cases h
    exact ⟨hw, rfl⟩
  error _ h := by cases h

theorem of_isTrue (v : Value) : M.Tracks (isTrue v) (isTrue v) where
  ok hw h := by
    cases h
    exact ⟨hw, rfl⟩
  error _ h := by cases h

theorem of_define (L : M.Lawful) (env : Nat) (name : String) (v : Value) :
    M.Tracks (define env name v) (define env name v) :=
  of_modify (fun _ => rfl) fun _ hw => L.frames hw _

theorem of_write (L : M.Lawful) (text : String) : M.Tracks (write text) (write text) :=
  of_modify (fun w => by simp only [World.switched, L.writes]) fun _ hw => L.write hw text

theorem of_readLine (L : M.Lawful) : M.Tracks readLine readLine :=
  of_modifyGet (fun w => by simp only [World.switched, L.reads]) fun _ hw => L.read hw

theorem of_ask (L : M.Lawful) (question : Host → Nat → α) :
    M.Tracks (ask question) (ask question) :=
  of_modifyGet (fun _ => rfl) fun _ hw => L.asks hw _

theorem of_place (L : M.Lawful) (d : Draft) : M.Tracks (place d) (place d) := by
  cases d with
  | value v => exact of_pure v
  | list items =>
    exact of_modifyGet (fun _ => rfl) fun w hw =>
      L.heap hw _ rfl rfl rfl (w.heap.keepsDicts_place (.list items))
  | dict entries =>
    exact of_modifyGet (fun _ => rfl) fun w hw =>
      L.heap hw _ rfl rfl rfl (w.heap.keepsDicts_place (.dict entries))

theorem of_ite {c : Prop} [Decidable c] {x' y' : Exec α} (hx : M.Tracks x y)
    (hy : M.Tracks x' y') : M.Tracks (if c then x else x') (if c then y else y') := by
  split
  · exact hx
  · exact hy

theorem of_option {f g : Option α → Exec β} (hsome : ∀ a, M.Tracks (f (some a)) (g (some a)))
    (hnone : M.Tracks (f none) (g none)) (o : Option α) : M.Tracks (f o) (g o) := by
  cases o with
  | some a => exact hsome a
  | none => exact hnone

theorem of_mapM (L : M.Lawful) {f g : α → Exec β} (h : ∀ a, M.Tracks (f a) (g a))
    (as : List α) : M.Tracks (as.mapM f) (as.mapM g) := by
  induction as with
  | nil => exact of_pure []
  | cons a as ih =>
    rw [List.mapM_cons, List.mapM_cons]
    exact (h a).bind L fun _ => ih.bind L fun _ => of_pure _

theorem withFrame (L : M.Lawful) {env : Nat} {f g : Nat → Exec α}
    (h : ∀ scope, M.Tracks (f scope) (g scope)) :
    M.Tracks (withFrame env f) (withFrame env g) where
  ok {w a t} hw hf := by
    have hopened : M.inv (w.opened env) := L.frames hw _
    rw [withFrame_eq_closed] at hf ⊢
    cases hcase : f w.frames.size (w.opened env) with
    | ok b u =>
      rw [hcase] at hf
      cases hf
      obtain ⟨hu, hg⟩ := (h _).ok hopened hcase
      refine ⟨L.frames hu _, ?_⟩
      exact congrArg (Outcome.closed w.frames.size) hg
    | error s u =>
      rw [hcase] at hf
      cases hf
  error {w s t} hw hf := by
    have hopened : M.inv (w.opened env) := L.frames hw _
    rw [withFrame_eq_closed] at hf ⊢
    cases hcase : f w.frames.size (w.opened env) with
    | ok b u =>
      rw [hcase] at hf
      cases hf
    | error s u =>
      rw [hcase] at hf
      cases hf
      exact L.closed ((h _).error hopened hcase) w.frames.size

theorem atLine (L : M.Lawful) (line : Nat) (h : M.Tracks x y) :
    M.Tracks (atLine line x) (atLine line y) where
  ok {w a t} hw hx := by
    rw [atLine_eq_orLine] at hx ⊢
    cases hcase : x w with
    | ok b u =>
      rw [hcase] at hx
      cases hx
      obtain ⟨hu, hy⟩ := h.ok hw hcase
      rw [hy]
      exact ⟨hu, rfl⟩
    | error s u =>
      rw [hcase] at hx
      cases hx
  error {w s t} hw hx := by
    rw [atLine_eq_orLine] at hx ⊢
    cases hcase : x w with
    | ok b u =>
      rw [hcase] at hx
      cases hx
    | error s u =>
      rw [hcase] at hx
      cases hx
      exact L.orLine (h.error hw hcase) line

end Tracks

-- Evaluations that do the same as long as the first ones do not stop.
structure Tied (M : Simulation) (ev ev' : Evaluators) : Prop where
  expr : ∀ env e, M.Tracks (ev.expr env e) (ev'.expr env e)
  stmt : ∀ env {s}, M.sound s → M.Tracks (ev.stmt env s) (ev'.stmt env s)
  call : ∀ env {f}, (∀ s ∈ f.body, M.sound s) →
    ∀ args, M.Tracks (ev.call env f args) (ev'.call env f args)
  body : ∀ scope {f}, (∀ s ∈ f.body, M.sound s) → M.Tracks (ev.body scope f) (ev'.body scope f)

end Simulation

end Parlance
