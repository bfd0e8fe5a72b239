import Parlance.Proofs.Simulation.Eval

namespace Parlance

-- What all that programs do to worlds keeps true, apart from sending, and what is true when
-- fuel has run out. The consoles are seen through `view`.
structure Kept (view : Console → Console) (more : Prop) (inv spent : World → Prop) : Prop where
  writes : ∀ c text, view (c.write text) = (view c).write text
  reads : ∀ c, (view c).readLine = (c.readLine.1, view c.readLine.2)
  frames : ∀ {w}, inv w → ∀ frames, inv { w with frames }
  write : ∀ {w}, inv w → ∀ text, inv { w with console := w.console.write text }
  read : ∀ {w}, inv w → inv { w with console := w.console.readLine.2 }
  asks : ∀ {w}, inv w → ∀ asked, inv { w with asked }
  functions : ∀ {w}, inv w → ∀ functions, inv { w with functions }
  heap : ∀ {w}, inv w → ∀ heap : Heap, heap.clients = w.heap.clients →
    heap.servers = w.heap.servers → heap.connections = w.heap.connections →
    w.heap.KeepsDicts heap → inv { w with heap }
  listens : ∀ {w turn ref}, inv w →
    w.options.host.network.refusal? turn w.listeners (w.heap.server ref).endpoint = none →
    inv { w with listeners := ⟨(w.heap.server ref).endpoint, ref⟩ :: w.listeners }
  closes : ∀ {w ref}, inv w → (w.heap.client ref).held = false →
    inv { w with heap := w.heap.leave ref }
  client : ∀ {w}, inv w → ∀ endpoint, inv { w with heap := (w.heap.addClient endpoint).2 }
  server : ∀ {w}, inv w → ∀ server, inv { w with heap := (w.heap.addServer server).2 }
  spends : more → ∀ {w}, inv w → spent w
  released : ∀ {w}, spent w → ∀ frames, spent { w with frames }

-- Worlds stay as they should be until fuel runs out, and more fuel changes nothing unless there
-- was too little.
def keeping (view : Console → Console) (more : Prop) (inv spent : World → Prop) : Simulation where
  switch := ⟨id, view⟩
  more := more
  sound _ := True
  inv := inv
  excused s w r := (s = .outOfFuel ∧ spent w ∨ inv w) ∧
    (s = .outOfFuel ∧ more ∨ r = .error s (w.switched ⟨id, view⟩))

namespace keeping

open Simulation Tracks

variable {view : Console → Console} {more : Prop} {inv spent : World → Prop} {α : Type}
  {x y : Exec α} {ev ev' : Evaluators}

theorem lawful (K : Kept view more inv spent) : (keeping view more inv spent).Lawful where
  writes := K.writes
  reads := K.reads
  bodies _ _ _ _ _ := trivial
  functions _ _ _ _ := trivial
  frames := K.frames
  write := K.write
  read := K.read
  asks := K.asks
  heap := K.heap
  listens := K.listens
  closes := K.closes
  server := K.server
  client _ := K.client
  learned _ h := K.functions h _
  same h _ := ⟨.inr h, .inr rfl⟩
  spent hmore _ _ h _ := ⟨.inl ⟨rfl, K.spends hmore h⟩, .inl ⟨rfl, hmore⟩⟩
  next h g := ⟨h.1, h.2.imp_right (congrArg (Outcome.next · g))⟩
  closed h n := by
    refine ⟨h.1.imp (fun hw => ⟨hw.1, K.released hw.2 _⟩) (K.frames · _), ?_⟩
    exact h.2.imp_right (congrArg (Outcome.closed n))
  orLine h line := by
    refine ⟨h.1.imp_left fun hw => ⟨congrArg (Stop.orLine line) hw.1, hw.2⟩, ?_⟩
    exact h.2.imp (fun hs => ⟨congrArg (Stop.orLine line) hs.1, hs.2⟩)
      (congrArg (Outcome.orLine line))

-- A failure that is caught is the same with more fuel.
theorem attempt (h : (keeping view more inv spent).Tracks x y) :
    (keeping view more inv spent).Tracks (Exec.attempt x) (Exec.attempt y) where
  ok {w a t} hw hx := by
    cases hcase : x w with
    | ok b u =>
      obtain ⟨hu, hy⟩ := h.ok hw hcase
      simp only [Exec.attempt, hcase] at hx
      cases hx
      refine ⟨hu, ?_⟩
      rw [Exec.attempt, hy]
    | error s u =>
      obtain ⟨hu, hy⟩ := h.error hw hcase
      simp only [Exec.attempt, hcase] at hx
      cases s with
      | outOfFuel => cases hx
      | fault f =>
        cases hx
        refine ⟨hu.resolve_left fun hs => (by cases hs.1), ?_⟩
        rw [Exec.attempt, hy.resolve_left fun hs => (by cases hs.1)]
        rfl
      | crash =>
        cases hx
        refine ⟨hu.resolve_left fun hs => (by cases hs.1), ?_⟩
        rw [Exec.attempt, hy.resolve_left fun hs => (by cases hs.1)]
        rfl
  error {w s t} hw hx := by
    cases hcase : x w with
    | ok b u =>
      simp only [Exec.attempt, hcase] at hx
      cases hx
    | error s' u =>
      obtain ⟨hu, hy⟩ := h.error hw hcase
      simp only [Exec.attempt, hcase] at hx
      cases s' with
      | fault f => cases hx
      | crash => cases hx
      | outOfFuel =>
        cases hx
        refine ⟨hu, hy.imp_right fun hy => ?_⟩
        rw [Exec.attempt, hy]

theorem together (K : Kept view more inv spent) (T : (keeping view more inv spent).Tied ev ev')
    (env : Nat) (es : List Expr) :
    (keeping view more inv spent).Tracks (Eval.together ev env es) (Eval.together ev' env es) := by
  induction es with
  | nil => exact of_pure _
  | cons e rest ih =>
    apply (attempt (T.expr env e)).bind (lawful K)
    intro result
    cases result with
    | ok v => exact ih
    | error f => exact ih.bind (lawful K) fun _ => of_pure _

theorem inOrder (K : Kept view more inv spent) (T : (keeping view more inv spent).Tied ev ev')
    (env : Nat) (es : List Expr) :
    (keeping view more inv spent).Tracks (Eval.inOrder ev env es) (Eval.inOrder ev' env es) := by
  induction es with
  | nil => exact of_pure _
  | cons e rest ih => exact (T.expr env e).bind (lawful K) fun _ => ih

theorem parallel (K : Kept view more inv spent) (T : (keeping view more inv spent).Tied ev ev')
    (env : Nat) (body : List Stmt) :
    (keeping view more inv spent).Tracks (Eval.parallel ev env body)
      (Eval.parallel ev' env body) := by
  apply of_get
  intro w _
  apply of_ite
  · apply (together K T env _).bind (lawful K)
    intro failure
    cases failure with
    | some f => exact of_stop (lawful K) _
    | none => exact of_pure _
  · exact inOrder K T env _

theorem send (K : Kept view more inv spent)
    (hrequest : ∀ ref text, (keeping view more inv spent).Tracks (Eval.request ev ref text)
      (Eval.request ev' ref text)) (args : List Value) :
    (keeping view more inv spent).Tracks (Eval.send ev args) (Eval.send ev' args) := by
  apply (of_require (lawful K) _).bind (lawful K)
  intro pair
  split
  · next ref v =>
    apply (of_display v).bind (lawful K)
    intro message
    exact (hrequest ref message).bind (lawful K) fun _ => of_pure _
  · exact of_stop (lawful K) _

-- Only requests remain to be looked at.
theorem evaluators_tied (K : Kept view more inv spent)
    (hstores : (keeping view more inv spent).Stores)
    (hrequest : ∀ {n m}, (keeping view more inv spent).Tied (evaluators n) (evaluators m) →
      ∀ ref text, (keeping view more inv spent).Tracks (Eval.request (evaluators n) ref text)
        (Eval.request (evaluators m) ref text))
    {n m : Nat} (h : n = m ∨ more ∧ n ≤ m) :
    (keeping view more inv spent).Tied (evaluators n) (evaluators m) :=
  tied (lawful K) hstores (fun T => send K (hrequest T)) (fun T => parallel K T) h

section

-- Clients and connections do not matter to what is kept true.
variable (K : Kept view more inv spent)
  (D : ∀ {w : World}, inv w → ∀ heap : Heap, heap.dicts = w.heap.dicts → inv { w with heap })
  (D' : ∀ {w : World}, spent w → ∀ heap : Heap, heap.dicts = w.heap.dicts → spent { w with heap })

include K D

theorem connected (ref : Nat) :
    (keeping view more inv spent).Tracks (Eval.connected ref) (Eval.connected ref) := by
  apply of_get
  intro w _
  dsimp only [World.switched, keeping, id]
  split
  · exact of_pure _
  · apply (of_ask (lawful K) _).bind (lawful K)
    intro answer
    cases answer with
    | ok server =>
      exact Tracks.bind (lawful K) (of_modify (fun _ => rfl) fun _ hw => D hw _ rfl)
        fun _ => of_pure _
    | error reason => exact of_stop (lawful K) _

omit K in
theorem onConnection (k : Nat) (f : Connection → Connection) :
    (keeping view more inv spent).Tracks (Eval.onConnection k f) (Eval.onConnection k f) :=
  of_modify (fun _ => rfl) fun _ hw => D hw _ rfl

omit K in
theorem awaiting (k : Nat) (read? : Connection → Option (Option String × Connection)) :
    (keeping view more inv spent).Tracks (Eval.awaiting k read?) (Eval.awaiting k read?) where
  ok {w a t} hw h := by
    have hheap : (w.switched ⟨id, view⟩).heap = w.heap := rfl
    cases hread : read? (w.heap.connection k) with
    | some next =>
      simp only [Eval.awaiting, hread] at h
      cases h
      refine ⟨D hw _ rfl, ?_⟩
      simp only [Eval.awaiting, keeping, hheap, hread]
      rfl
    | none =>
      simp only [Eval.awaiting, hread] at h
      cases h
  error {w s t} hw h := by
    have hheap : (w.switched ⟨id, view⟩).heap = w.heap := rfl
    cases hread : read? (w.heap.connection k) with
    | some next =>
      simp only [Eval.awaiting, hread] at h
      cases h
    | none =>
      simp only [Eval.awaiting, hread] at h
      cases h
      refine ⟨.inr hw, .inr ?_⟩
      simp only [Eval.awaiting, keeping, hheap, hread]

omit K in
include D' in
theorem holding (ref : Nat) (h : (keeping view more inv spent).Tracks x y) :
    (keeping view more inv spent).Tracks (Eval.holding ref x) (Eval.holding ref y) where
  ok {w a t} hw hx := by
    obtain ⟨hfree, u, hcase, rfl⟩ := Eval.holding_eq_ok hx
    have hheld : (keeping view more inv spent).inv (w.hold ref true) := D hw _ rfl
    obtain ⟨hu, hsame⟩ := h.ok hheld hcase
    have hswitched : ((w.switched ⟨id, view⟩).heap.client ref).held = false := hfree
    refine ⟨D hu _ rfl, (Exec.holding_of_free y hswitched).trans ?_⟩
    exact congrArg (Outcome.released ref) hsame
  error {w s t} hw hx := by
    rcases Eval.holding_eq_error hx with ⟨hheld, rfl, rfl⟩ | ⟨hfree, u, hcase, rfl⟩
    · exact ⟨.inr hw, .inr (Exec.holding_of_held y hheld)⟩
    · have hheld : (keeping view more inv spent).inv (w.hold ref true) := D hw _ rfl
      have hswitched : ((w.switched ⟨id, view⟩).heap.client ref).held = false := hfree
      obtain ⟨hu, hsame⟩ := h.error hheld hcase
      refine ⟨hu.imp (fun hs => ⟨hs.1, D' hs.2 _ rfl⟩) (D · _ rfl), hsame.imp_right fun hsame => ?_⟩
      exact (Exec.holding_of_free y hswitched).trans (congrArg (Outcome.released ref) hsame)

omit D in
theorem answer? (T : (keeping view more inv spent).Tied ev ev') (server : Nat) (request : String) :
    (keeping view more inv spent).Tracks (Eval.answer? ev server request)
      (Eval.answer? ev' server request) := by
  apply of_get
  intro w _
  apply (attempt (T.call globals (fun _ _ => trivial) _)).bind (lawful K)
  intro result
  cases result with
  | ok v => exact (of_display v).bind (lawful K) fun _ => of_pure _
  | error f => exact of_pure _

theorem turn (T : (keeping view more inv spent).Tied ev ev') (k : Nat) :
    (keeping view more inv spent).Tracks (Eval.turn ev k) (Eval.turn ev' k) := by
  apply (awaiting D k Connection.fetch?).bind (lawful K)
  intro message
  cases message with
  | none => exact onConnection D k _
  | some request =>
    apply of_get
    intro w _
    apply (answer? K T _ request).bind (lawful K)
    intro reply
    cases reply with
    | some reply => exact onConnection D k _
    | none => exact onConnection D k _

include D' in
theorem request (T : (keeping view more inv spent).Tied ev ev') (ref : Nat) (message : String) :
    (keeping view more inv spent).Tracks (Eval.request ev ref message)
      (Eval.request ev' ref message) := by
  apply holding D D' ref
  apply (connected K D ref).bind (lawful K)
  intro k
  apply (onConnection D k _).bind (lawful K)
  intro _
  apply (turn K D T k).bind (lawful K)
  intro _
  apply (awaiting D k Connection.collect?).bind (lawful K)
  intro reply
  cases reply with
  | some reply => exact of_pure _
  | none =>
    have hleave : ∀ w, inv w → inv { w with heap := w.heap.leave ref } :=
      fun w hw => D hw _ (w.heap.dicts_leave ref)
    refine Tracks.bind (lawful K) (of_modify (fun _ => rfl) hleave) fun _ => ?_
    exact of_get fun _ _ => of_stop (lawful K) _

end

end keeping

end Parlance
