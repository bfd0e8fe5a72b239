import Parlance.Proofs.Channel.Requests

namespace Parlance

open Channel

-- A computation starts in a world that can have come about since `start`, and does to channels
-- what can happen.
def Channel.Follows (C : Conduct) (start : State) {α : Type} (w : World) (r : Outcome α) : Prop :=
  ∃ es S, Steps C start es S ∧ S.world = w ∧ Arrives C S r

open Classical in
noncomputable def Channel.follows (C : Conduct) (start : State) {α : Type} (w : World)
    (r : Outcome α) : Bool :=
  decide (Follows C start w r)

open Classical in
theorem Channel.Follows.eq_true {C : Conduct} {start : State} {α : Type} {w : World}
    {r : Outcome α} (h : Follows C start w r) : follows C start w r = true :=
  decide_eq_true h

-- So does all that is evaluated.
noncomputable def Contract.stepwise (C : Conduct) (start : State) : Contract where
  expr _ _ _ := follows C start
  stmt _ _ _ := follows C start
  body _ := follows C start

namespace Channel

open Simulation Tracks

variable {C : Conduct} {es : List Event} {S T : State} {ev ev' : Evaluators} {ref : Nat}
  {text : String} {w t : World}

-- A request that comes to an end does what can happen.
theorem Served.arrives {r : Outcome String} (h : Served C ev es S ref text r) :
    Arrives C S r := by
  intro hover
  cases h with
  | busy | empty | hangs | silent => cases hover
  | refused hnone hconnect hsteps hresumes => exact ⟨_, _, hsteps, rfl, hresumes⟩
  | answered hasked hcall hinner hends hclient hresumes =>
    obtain ⟨server, s, dialled, -, -, -, hsteps⟩ := hasked
    exact ⟨_, _, (hsteps.trans hinner).trans hends, rfl, hresumes⟩
  | failed hasked hcall hstop hinner hends hclient hresumes =>
    obtain ⟨server, s, dialled, -, -, -, hsteps⟩ := hasked
    exact ⟨_, _, (hsteps.trans hinner).trans hends, rfl, hresumes⟩

theorem request_arrives (hev : Honest C ev) (hrun : Run C es S) (ref : Nat) (text : String) :
    Arrives C S (Eval.request ev ref text S.world) := by
  by_cases href : ref < S.heap.clients.size
  · exact (request_served hev hrun href text).arrives
  · obtain ⟨reason, hreason⟩ := S.network.unreached S.world.asked S.world.listeners 0
    rw [request_of_absent (Nat.le_of_not_lt href) hreason]
    exact fun _ => (Reaches.refl S).apart ⟨rfl, rfl, rfl, rfl, rfl⟩

-- The states that there can be.
abbrev Possible (C : Conduct) (w : World) :=
  { S : State // ∃ es, Steps C (.start w) es S }

-- Two ways to run do the same, and lead from a state to others.
def possible (C : Conduct) (S : State) : Simulation :=
  keeping id False (Reaches C S) fun _ => True

namespace possible

variable {α : Type} {x y : Exec α}

theorem lawful (C : Conduct) (S : State) : (possible C S).Lawful :=
  keeping.lawful (Reaches.kept C S)

theorem tracks_iff :
    (possible C S).Tracks x y ↔ ∀ w, Reaches C S w → Arrives C S (x w) ∧ y w = x w := by
  constructor
  · intro h w hw
    cases hx : x w with
    | ok a t =>
      obtain ⟨ht, hy⟩ := h.ok hw hx
      exact ⟨fun _ => ht, hy⟩
    | error stop t =>
      obtain ⟨ht, hy⟩ := h.error hw hx
      refine ⟨fun hover => ht.resolve_left fun hs => ?_, hy.resolve_left And.right⟩
      rw [hs.1] at hover
      cases hover
  · intro h
    constructor
    · intro w a t hw hx
      obtain ⟨ht, hy⟩ := h w hw
      rw [hx] at ht hy
      exact ⟨ht rfl, hy⟩
    · intro w stop t hw hx
      obtain ⟨ht, hy⟩ := h w hw
      rw [hx] at ht hy
      refine ⟨?_, .inr hy⟩
      cases stop with
      | outOfFuel => exact .inl ⟨rfl, trivial⟩
      | fault | crash => exact .inr (ht rfl)

-- The condition is met wherever one can come to.
theorem checked (h : ∀ S : Possible C t, (possible C S).Tracks x y) (S : Possible C t) :
    (possible C S).Tracks (Contract.checked (follows C (.start t)) x) y := by
  refine tracks_iff.mpr fun w hw => ?_
  obtain ⟨es, hsteps⟩ := S.property
  obtain ⟨more, T, hmore, hworld, -⟩ := id hw
  have hT := hsteps.trans hmore
  have harrives := tracks_iff.mp (h ⟨T, _, hT⟩) w (hworld ▸ .refl T)
  have hfollows : Follows C (.start t) w (x w) := ⟨_, T, hT, hworld, harrives.1⟩
  rw [Contract.checked_of_condition rfl hfollows.eq_true]
  exact tracks_iff.mp (h S) w hw

end possible

-- Evaluation that is watched is tied to the one that is not in all states that there can be.
def Watched (C : Conduct) (n : Nat) : Prop :=
  ∀ w, w.Unconnected → ∀ k (S : Possible C w),
    (possible C S).Tied ((Contract.stepwise C (.start w)).watched n k) (evaluators n)

theorem Run.exists_start (h : Run C es S) : ∃ w, w.Unconnected ∧ Steps C (.start w) es S := by
  induction h with
  | start hw => exact ⟨_, hw, .refl⟩
  | step _ hstep ih => exact ih.imp fun _ h => ⟨h.1, h.2.step hstep⟩

namespace Watched

variable {n : Nat}

-- Handlers do what can happen, whether they are watched or not.
theorem call_eq (h : Watched C n) (k : Option Activation) (hw : w.Unconnected)
    (hsteps : Steps C (.start w) es S) (f : Function) (args : List Value) :
    Arrives C S ((evaluators n).call globals f args S.world) ∧
      ((Contract.stepwise C (.start w)).watched n k).call globals f args S.world =
        (evaluators n).call globals f args S.world := by
  have htied := h w hw k ⟨S, es, hsteps⟩
  have htracks := htied.call globals (f := f) (fun _ _ => trivial) args
  obtain ⟨harrives, hsame⟩ := possible.tracks_iff.mp htracks S.world (.refl S)
  exact ⟨hsame ▸ harrives, hsame.symm⟩

theorem honest (h : Watched C n) : Honest C (evaluators n) where
  arrives es S hrun f args := by
    obtain ⟨w, hw, hsteps⟩ := hrun.exists_start
    exact (h.call_eq none hw hsteps f args).1
  conforms _ _ _ hover := C.alone hover

theorem request (h : Watched C n) (hw : w.Unconnected) (k : Option Activation)
    (S : Possible C w) (ref : Nat) (text : String) :
    (possible C S).Tracks
      (Eval.request ((Contract.stepwise C (.start w)).watched n k) ref text)
      (Eval.request (evaluators n) ref text) := by
  refine possible.tracks_iff.mpr fun u hu => ?_
  obtain ⟨es, hsteps⟩ := S.property
  obtain ⟨more, T, hmore, rfl, hresumes⟩ := hu
  have hT := hsteps.trans hmore
  have hrun := hT.run hw
  have hsame : SameCalls C ((Contract.stepwise C (.start w)).watched n k) (evaluators n) T :=
    fun _ U hU f args => (h.call_eq k hw (hT.trans hU) f args).2
  rw [request_congr hsame hrun]
  exact ⟨.trans hmore hresumes (request_arrives h.honest hrun ref text), rfl⟩

theorem zero : Watched C 0 := by
  intro w _ k S
  rw [Contract.watched_zero]
  exact tied_zero (possible.lawful C S) (.inl rfl)

theorem succ (h : Watched C n) : Watched C (n + 1) := by
  intro w hw k S
  have hsend := fun k (S : Possible C w) =>
    keeping.send (Reaches.kept C S.val) (h.request hw k S)
  have hparallel := fun k (S : Possible C w) =>
    keeping.parallel (Reaches.kept C S.val) (h w hw k S)
  rw [Contract.watched_succ, evaluators_succ]
  constructor
  · intro env e
    refine possible.checked (fun S => ?_) S
    refine Tracks.atLine (possible.lawful C S) e.line ?_
    exact Simulation.expr (possible.lawful C S) (h w hw k S) (hsend k S) env e
      fun _ => Reaches.stores C S.val
  · intro env s hs
    refine possible.checked (fun S => ?_) S
    exact Simulation.stmt (possible.lawful C S) (h w hw k S) (hparallel k S) env hs (.inl rfl)
  · intro env f hf args
    exact Simulation.call (possible.lawful C S) (h w hw none S) env hf args
  · intro scope f hf
    refine possible.checked (fun S => ?_) S
    exact Simulation.block (possible.lawful C S) (h w hw (some ⟨scope, f⟩) S) scope hf

end Watched

theorem watched (C : Conduct) (n : Nat) : Watched C n := by
  induction n with
  | zero => exact .zero
  | succ n ih => exact ih.succ

-- Programs that run do nothing to channels but what can happen, in all that they evaluate.
theorem stepwise_kept (C : Conduct) (hw : w.Unconnected) (n : Nat) (p : Program) :
    (Contract.stepwise C (.start w)).Kept n p w := by
  have htied := watched C n w hw none ⟨.start w, [], .refl⟩
  have htracks := Simulation.run (possible.lawful C _) htied (p := p) fun _ _ => trivial
  exact (possible.tracks_iff.mp htracks w (.refl (.start w))).2.symm

end Channel

end Parlance
