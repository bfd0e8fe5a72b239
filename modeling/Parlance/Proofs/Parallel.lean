import Parlance.Host.Local
import Parlance.Proofs.Accepted
import Parlance.Proofs.Steady

namespace Parlance

def Stmt.isChannel : Stmt → Bool
  | client _ _ _ _ => true
  | server _ _ _ _ _ _ => true
  | _ => false

-- A world in which a program without channels is run, one worker after another.
structure World.Alone (w : World) : Prop where
  parallel : w.options.parallel = false
  clients : w.heap.clients = #[]
  functions : ∀ name f, w.functions.get? name = some f →
    ∀ s ∈ f.body, ∀ t ∈ s.parts, t.isChannel = false

theorem World.Alone.congr {w t : World} (h : w.Alone) (hoptions : t.options = w.options)
    (hclients : t.heap.clients = w.heap.clients) (hfunctions : t.functions = w.functions) :
    t.Alone where
  parallel := hoptions ▸ h.parallel
  clients := hclients.trans h.clients
  functions := hfunctions ▸ h.functions

-- Programs without channels, whose workers run one after another up to the first that fails, and
-- beside that run all of them. When the first way fails, the second one can have written more by
-- then, and does not come to its end if one of the other workers does not.
def abreast : Simulation where
  switch := ⟨fun _ => true, id⟩
  more := True
  sound s := ∀ t ∈ s.parts, t.isChannel = false
  inv := World.Alone
  excused s w r := ∀ f, s = .fault f →
    (∃ t, r = .error .outOfFuel t) ∨
      ∃ t, r = .error (.fault f) t ∧ t.console.Extends w.console.output

namespace abreast

open Simulation

variable {w t : World} {ev ev' : Evaluators}

theorem lawful : abreast.Lawful where
  writes _ _ := rfl
  reads _ := rfl
  bodies h body hbody t ht u hu := h u (Stmt.parts_subset hbody ht u hu)
  functions hw hf := hw.functions _ _ hf
  frames hw _ := hw.congr rfl rfl rfl
  write hw _ := hw.congr rfl rfl rfl
  read hw := hw.congr rfl rfl rfl
  asks hw _ := hw.congr rfl rfl rfl
  heap hw heap hclients _ _ _ := hw.congr rfl hclients rfl
  listens hw _ := hw.congr rfl rfl rfl
  closes {w ref} hw _ := by
    have hleft : (w.heap.leave ref).clients = w.heap.clients := by
      simp [Heap.leave, Heap.client, Client.fresh, Heap.onClient, hw.clients]
    exact hw.congr rfl hleft rfl
  server hw _ := hw.congr rfl rfl rfl
  client hs _ _ := by
    have hchannel := hs _ (Stmt.mem_parts_self _)
    cases hchannel
  learned {name returns params body line w} hs hw := by
    refine ⟨hw.parallel, hw.clients, fun other f hf => ?_⟩
    rw [World.learned, Table.get?_insert] at hf
    split at hf
    · cases hf
      exact fun s hmem u hu => hs u (Stmt.parts_subset List.mem_cons_self hmem u hu)
    · exact hw.functions other f hf
  same {_ w} _ s := by
    rintro f rfl
    exact .inr ⟨_, rfl, "", (String.append_empty).symm⟩
  spent _ _ _ _ _ := by rintro f ⟨⟩
  next h _ := by
    intro f hs
    rcases h f hs with ⟨t, rfl⟩ | ⟨t, rfl, hout⟩
    · exact .inl ⟨t, rfl⟩
    · exact .inr ⟨t, rfl, hout⟩
  closed h n := by
    intro f hs
    rcases h f hs with ⟨t, rfl⟩ | ⟨t, rfl, hout⟩
    · exact .inl ⟨t.closed n, rfl⟩
    · exact .inr ⟨t.closed n, rfl, hout⟩
  orLine {_ s w r} h line := by
    intro f hs
    cases s with
    | fault g =>
      cases hs
      rcases h g rfl with ⟨t, rfl⟩ | ⟨t, rfl, hout⟩
      · exact .inl ⟨t, rfl⟩
      · exact .inr ⟨t, rfl, hout⟩
    | crash => cases hs
    | outOfFuel => cases hs

theorem stores : abreast.Stores :=
  fun hw v slot => hw.congr rfl (Heap.clients_put _ v slot) rfl

theorem send (args : List Value) :
    abreast.Tracks (Eval.send ev args) (Eval.send ev' args) := by
  apply (Tracks.of_require lawful _).bind lawful
  intro pair
  split
  · next ref v =>
    apply (Tracks.of_display v).bind lawful
    intro message
    refine Tracks.bind lawful ?_ fun _ => Tracks.of_pure _
    constructor
    · intro w a t hw h
      obtain ⟨reason, hreason⟩ := w.options.host.network.unreached w.asked w.listeners 0
      rw [request_of_absent (by simp [hw.clients]) hreason] at h
      cases h
    · intro w s t hw h
      obtain ⟨reason, hreason⟩ := w.options.host.network.unreached w.asked w.listeners 0
      rw [request_of_absent (by simp [hw.clients]) hreason] at h
      cases h
      have hclients : (w.switched abreast.switch).heap.clients = #[] := hw.clients
      rw [request_of_absent (w := w.switched abreast.switch) (by simp [hclients]) hreason]
      exact lawful.same (lawful.asks hw _) _
  · exact Tracks.of_stop lawful _

theorem attempt_error {α : Type} {x : Exec α} {s : Stop}
    (h : Exec.attempt x w = .error s t) : s = .outOfFuel := by
  unfold Exec.attempt at h
  split at h <;> cases h
  rfl

-- Running all workers stops for nothing that a worker fails for.
theorem together_error {env : Nat} {es : List Expr} {s : Stop}
    (h : Eval.together ev env es w = .error s t) : s = .outOfFuel := by
  induction es generalizing w s t with
  | nil => cases h
  | cons e rest ih =>
    rw [Eval.together, Exec.bind_apply] at h
    cases hcase : Exec.attempt (ev.expr env e) w with
    | error s' u =>
      rw [hcase] at h
      cases h
      exact attempt_error hcase
    | ok result u =>
      rw [hcase] at h
      cases result with
      | ok v => exact ih h
      | error f =>
        simp only [Exec.bind_apply] at h
        cases hrest : Eval.together ev env rest u with
        | ok failure v =>
          rw [hrest] at h
          cases h
        | error s' v =>
          rw [hrest] at h
          cases h
          exact ih hrest

-- The first worker that fails decides what a parallel block fails for. The workers after it
-- only write more.
theorem together_of_inOrder {n m : Nat} (T : abreast.Tied (evaluators n) (evaluators m))
    (env : Nat) (es : List Expr) (hw : abreast.inv w) :
    (∀ u, Eval.inOrder (evaluators n) env es w = .ok u t →
      abreast.inv t ∧
        Eval.together (evaluators m) env es (w.switched abreast.switch) =
          .ok none (t.switched abreast.switch)) ∧
    ∀ f, Eval.inOrder (evaluators n) env es w = .error (.fault f) t →
      (∃ t', Eval.together (evaluators m) env es (w.switched abreast.switch) =
        .error .outOfFuel t') ∨
      ∃ t', Eval.together (evaluators m) env es (w.switched abreast.switch) = .ok (some f) t' ∧
        t'.console.Extends t.console.output := by
  induction es generalizing w with
  | nil =>
    constructor
    · rintro u ⟨⟩
      exact ⟨hw, rfl⟩
    · rintro f ⟨⟩
  | cons e rest ih =>
    rw [Eval.inOrder, Exec.bind_apply, Eval.together, Exec.bind_apply, Exec.attempt]
    cases hcase : (evaluators n).expr env e w with
    | ok v u =>
      obtain ⟨hu, hy⟩ := (T.expr env e).ok hw hcase
      rw [hy]
      exact ih hu
    | error s u =>
      constructor
      · rintro _ ⟨⟩
      · rintro f ⟨⟩
        rcases (T.expr env e).error hw hcase f rfl with ⟨t', hy⟩ | ⟨t', hy, hout⟩
        · rw [hy]
          exact .inl ⟨t', rfl⟩
        · rw [hy]
          simp only [Exec.bind_apply]
          obtain ⟨later, hlater⟩ := together_extends m env rest t'
          cases hrest : Eval.together (evaluators m) env rest t' with
          | error s' u' =>
            rw [together_error hrest]
            exact .inl ⟨u', rfl⟩
          | ok failure u' =>
            rw [hrest] at hlater
            obtain ⟨more, hmore⟩ := hout
            have houtput : u'.console.output = t.console.output ++ (more ++ later) := by
              rw [← String.append_assoc, ← hmore]
              exact hlater
            exact .inr ⟨u', rfl, more ++ later, houtput⟩

theorem parallel_of_together {env : Nat} {body : List Stmt} {failure : Option Fault}
    (hw : w.options.parallel = true)
    (h : Eval.together ev env (Eval.workers body) w = .ok failure t) :
    Eval.parallel ev env body w =
      failure.elim (.ok () t) fun f => .error (.fault f) t := by
  rw [Eval.parallel, Exec.bind_apply, Exec.get_apply]
  simp only [hw, ite_true, Exec.bind_apply, h]
  cases failure <;> rfl

theorem parallel_of_together_error {env : Nat} {body : List Stmt} {s : Stop}
    (hw : w.options.parallel = true)
    (h : Eval.together ev env (Eval.workers body) w = .error s t) :
    Eval.parallel ev env body w = .error s t := by
  rw [Eval.parallel, Exec.bind_apply, Exec.get_apply]
  simp only [hw, ite_true, Exec.bind_apply, h]

theorem parallel {n m : Nat} (T : abreast.Tied (evaluators n) (evaluators m)) (env : Nat)
    (body : List Stmt) :
    abreast.Tracks (Eval.parallel (evaluators n) env body)
      (Eval.parallel (evaluators m) env body) := by
  have hfirst : ∀ {w}, abreast.inv w → Eval.parallel (evaluators n) env body w =
      Eval.inOrder (evaluators n) env (Eval.workers body) w := by
    intro w hw
    rw [Eval.parallel, Exec.bind_apply, Exec.get_apply]
    simp [World.Alone.parallel hw]
  constructor
  · intro w u t hw h
    rw [hfirst hw] at h
    obtain ⟨ht, htogether⟩ := (together_of_inOrder T env _ hw).1 u h
    exact ⟨ht, parallel_of_together rfl htogether⟩
  · intro w s t hw h f hs
    subst hs
    rw [hfirst hw] at h
    rcases (together_of_inOrder T env _ hw).2 f h with ⟨t', ht'⟩ | ⟨t', ht', hout⟩
    · exact .inl ⟨t', parallel_of_together_error rfl ht'⟩
    · exact .inr ⟨t', parallel_of_together rfl ht', hout⟩

theorem inv_fresh (console : Console) (host : Host) :
    abreast.inv (World.fresh console ⟨false, host⟩) := by
  refine ⟨rfl, rfl, fun name f hf => ?_⟩
  cases hf

-- A whole program, with at least as much fuel.
theorem runs {p : Program} (hp : ∀ s ∈ Program.parts p, s.isChannel = false) {n m : Nat}
    (h : n ≤ m) : abreast.Tracks (runStatements n p) (runStatements m p) := by
  apply run lawful (tied lawful stores (fun _ => send) parallel (.inr ⟨trivial, h⟩))
  intro s hs t ht
  exact hp t (Stmt.mem_partsOf.mpr ⟨s, hs, ht⟩)

end abreast

-- In a program without channels it makes no difference whether the workers of parallel blocks
-- run up to the first that fails or all run, other than for what is written after a failure. If
-- the program succeeds in the first way it does in the second one, and leaves the same world. If
-- it fails in the first way and comes to its end in the second one, it fails for the same reason
-- and has written the same and maybe more.
theorem parallel_blocks_agree {p : Program}
    (hp : ∀ s ∈ Program.parts p, s.isChannel = false) (console : Console) (host : Host)
    (fuel : Nat) :
    (∀ t, runStatements fuel p (World.fresh console ⟨false, host⟩) = .ok () t →
      runStatements fuel p (World.fresh console ⟨true, host⟩) =
        .ok () { t with options := { t.options with parallel := true } } ∧
      ∀ m, Outcome.isOver (runStatements m p (World.fresh console ⟨true, host⟩)) = true →
        runStatements m p (World.fresh console ⟨true, host⟩) =
          .ok () { t with options := { t.options with parallel := true } }) ∧
    ∀ f t, runStatements fuel p (World.fresh console ⟨false, host⟩) = .error (.fault f) t →
      ∀ m, Outcome.isOver (runStatements m p (World.fresh console ⟨true, host⟩)) = true →
        ∃ t' more, runStatements m p (World.fresh console ⟨true, host⟩) =
            .error (.fault f) t' ∧
          t'.console.output = t.console.output ++ more := by
  have hfresh := abreast.inv_fresh console host
  constructor
  · intro t ht
    have hsame := ((abreast.runs hp (Nat.le_refl fuel)).ok hfresh ht).2
    refine ⟨hsame, fun m hover => ?_⟩
    have hmost := ((abreast.runs hp (Nat.le_max_left fuel m)).ok hfresh ht).2
    rw [← runStatements_of_isOver (Nat.le_max_right fuel m) hover]
    exact hmost
  · intro f t ht m hover
    have hmost := (abreast.runs hp (Nat.le_max_left fuel m)).error hfresh ht f rfl
    have hworld : (World.fresh console ⟨false, host⟩).switched abreast.switch =
        World.fresh console ⟨true, host⟩ := rfl
    rw [hworld, runStatements_of_isOver (Nat.le_max_right fuel m) hover] at hmost
    rcases hmost with ⟨t', ht'⟩ | ⟨t', ht', more, hmore⟩
    · rw [ht'] at hover
      cases hover
    · exact ⟨t', more, ht', hmore⟩

-- Parallel blocks one of which is called by a worker of the other. A worker of the inner one
-- fails, and all that come after it still write.
def nestedWorkers : String :=
  "func f(n: number) -> number \x7b
  print(n)
  return 10 / n \x7d
  func g() -> number \x7b par \x7b f(5) f(0) f(2) \x7d return 1 \x7d
  par \x7b g() f(1) \x7d"

set_option maxRecDepth 10000 in
theorem nestedWorkers_agree :
    ∃ p t t' more, compile nestedWorkers = .ok p ∧
      (∀ s ∈ Program.parts p, s.isChannel = false) ∧
      runStatements 40 p (World.fresh (.captured "") ⟨false, .loopback⟩) =
        .error (.fault (.runtimeAt .divisionByZero 3)) t ∧
      t.console.output = "5\n0\n" ∧
      runStatements 40 p (World.fresh (.captured "") ⟨true, .loopback⟩) =
        .error (.fault (.runtimeAt .divisionByZero 3)) t' ∧
      t'.console.output = t.console.output ++ more ∧ more ≠ "" := by
  obtain ⟨p, hp, hchannel, hfault, hfirst, hover, hsecond⟩ := exists_of_any
    (x := compile nestedWorkers)
    (P := fun p => (∀ s ∈ Program.parts p, s.isChannel = false) ∧
      Outcome.fault? (runStatements 40 p (World.fresh (.captured "") ⟨false, .loopback⟩)) =
        some (.runtimeAt .divisionByZero 3) ∧
      Outcome.output (runStatements 40 p (World.fresh (.captured "") ⟨false, .loopback⟩)) =
        "5\n0\n" ∧
      Outcome.isOver (runStatements 40 p (World.fresh (.captured "") ⟨true, .loopback⟩)) = true ∧
      Outcome.output (runStatements 40 p (World.fresh (.captured "") ⟨true, .loopback⟩)) ≠
        "5\n0\n") (by decide +kernel)
  obtain ⟨t, ht⟩ := Outcome.eq_error_of_fault? hfault
  obtain ⟨t', more, ht', hmore⟩ :=
    (parallel_blocks_agree hchannel (.captured "") .loopback 40).2 _ t ht 40 hover
  rw [ht] at hfirst
  rw [ht'] at hsecond
  refine ⟨p, t, t', more, hp, hchannel, ht, hfirst, ht', hmore, ?_⟩
  rintro rfl
  rw [String.append_empty] at hmore
  exact hsecond (hmore.trans hfirst)

end Parlance
