import Parlance.Proofs.Arguments
import Parlance.Proofs.Channel.Programs

namespace Parlance

-- The steps of a computation that is placed at a line are placed there.
theorem Exec.atLine_bind {α β : Type} (line : Nat) (x : Exec α) (g : α → Exec β) :
    atLine line (x >>= g) = atLine line x >>= fun a => atLine line (g a) := by
  funext w
  rw [atLine_eq_orLine, bind_eq_next, bind_eq_next, atLine_eq_orLine]
  cases x w with
  | ok a t => exact (atLine_eq_orLine line (g a) t).symm
  | error stop t => cases stop <;> rfl

namespace Eval

-- What a statement that makes a server evaluates first.
def described (ev : Evaluators) (env : Nat) (description host port : Expr) (line : Nat) :
    Exec (String × Endpoint) := do
  let d ← ev.expr env description
  let d ← Exec.atLine line (Exec.require (d.asText "channel description"))
  let e ← Exec.atLine line (endpoint ev env host port)
  return (d, e)

theorem server_eq {ev : Evaluators} {w : World} {handler : Token} {f : Function}
    (hf : w.functions.get? handler.lexeme = some f) (env : Nat) (name : String)
    (description host port : Expr) (line : Nat) :
    server ev env name handler description host port line w =
      (described ev env description host port line >>= fun p => do
        let v ← Exec.onHeap fun h => h.addServer ⟨p.1, p.2, f⟩
        Exec.define env name v
        return .normal) w := by
  rw [server, Exec.bind_apply, Exec.get_apply]
  simp only [hf, described, bind_assoc, pure_bind]

-- A call evaluates its arguments, of which the receiver is the first.
theorem expr_of_callName? {e : Expr} {name : String} (h : e.callName? = some name)
    (ev : Evaluators) (env : Nat) :
    expr ev env e = e.operands.mapM (ev.expr env) >>= invoke ev env name := by
  cases e with
  | call callee ty args =>
    cases h
    rfl
  | method receiver operation args =>
    cases h
    rw [Expr.operands, List.mapM_cons]
    simp only [expr, methodCall, bind_assoc, pure_bind]
  | _ => cases h

end Eval

namespace Channel

open Simulation Tracks

variable {C : Conduct} {es : List Event} {S : State} {n : Nat} {α β : Type}

-- A computation gets something ready, which leads to a state that there can be, and goes on there.
def Prepares (C : Conduct) (S : State) (ready : Outcome α)
    (rest : State → α → Outcome β → Prop) (r : Outcome β) : Prop :=
  match ready with
  | .ok a t => ∃ more T, Steps C S more T ∧ S.Resumes T ∧ T.world = t ∧ rest T a r
  | .error stop t => r = .error stop t

-- What the operations on channels do in a state, with fuel for what they contain.
structure Operates (C : Conduct) (n : Nat) (es : List Event) (S : State) : Prop where
  -- A statement makes a client for an address.
  client : ∀ env name host port line,
    Prepares C S (Exec.atLine line (Eval.endpoint (evaluators n) env host port) S.world)
      (fun T endpoint r => ∃ U, Step C T [.opens T.heap.clients.size endpoint] U ∧
        r = .ok .normal (U.world.defined env name (.client T.heap.clients.size)))
      ((evaluators (n + 1)).stmt env (.client name host port line) S.world)
  -- A statement makes a server. Its handler is the function that has the name at the start.
  server : ∀ env name handler description host port line f,
    S.world.functions.get? handler.lexeme = some f →
    Prepares C S (Eval.described (evaluators n) env description host port line S.world)
      (fun T p r => ∃ U, Step C T [.offers T.heap.servers.size ⟨p.1, p.2, f⟩] U ∧
        r = .ok .normal (U.world.defined env name (.server T.heap.servers.size)))
      ((evaluators (n + 1)).stmt env (.server name handler description host port line) S.world)
  -- Built-in functions run in states that there can be.
  builtin : ∀ env e name b, e.callName? = some name → Builtin.ofName? name = some b →
    Prepares C S (Exec.atLine e.line (e.operands.mapM ((evaluators n).expr env)) S.world)
      (fun T values r =>
        r = Exec.atLine e.line (Eval.builtin (evaluators n) env values b) T.world)
      ((evaluators (n + 1)).expr env e S.world)
  listen : ∀ env ref,
    (∃ T, Step C S [.listens ref] T ∧
      Eval.builtin (evaluators n) env [.server ref] .listen S.world = .ok .void T.world) ∨
    ∃ reason, S.network.refusal? S.world.asked S.world.listeners (S.heap.server ref).endpoint =
        some reason ∧
      Eval.builtin (evaluators n) env [.server ref] .listen S.world =
        .error (.fault (.runtime (.cannotListen (S.heap.server ref).endpoint.text reason)))
          S.asking.world
  -- A send sends the text of its value, and its value is the reply.
  send : ∀ env ref v, ref < S.heap.clients.size →
    ∃ r, Served C (evaluators n) es S ref (S.heap.display v) r ∧
      Eval.builtin (evaluators n) env [.client ref, v] .send S.world =
        Outcome.next r fun reply => pure (.str reply)
  close : ∀ env ref,
    (S.heap.client ref).held = true ∧
      Eval.builtin (evaluators n) env [.client ref] .close S.world = .error .outOfFuel S.world ∨
    ∃ T, Step C S [.closes ref (S.heap.client ref).connection] T ∧
      Eval.builtin (evaluators n) env [.client ref] .close S.world = .ok .void T.world
  -- A handler runs in a frame under the globals, in which its parameters have their arguments.
  call : ∀ f args, 0 < S.world.frames.size → (f.params.map Param.name).Nodup →
    CallEnds n globals f args S.world (Eval.missing? f.params args.length)
      ((evaluators (n + 1)).call globals f args S.world)

-- What is got ready can happen.
theorem Prepares.of_arrives {x : Exec α} {g : α → Exec β} {rest : State → α → Outcome β → Prop}
    (h : Arrives C S (x S.world)) (hrest : ∀ T a, rest T a (g a T.world)) :
    Prepares C S (x S.world) rest ((x >>= g) S.world) := by
  rw [Exec.bind_eq_next]
  cases hx : x S.world with
  | ok a t =>
    rw [hx] at h
    obtain ⟨more, T, hsteps, rfl, hresumes⟩ := h rfl
    exact ⟨more, T, hsteps, hresumes, rfl, hrest T a⟩
  | error stop t => rfl

-- What evaluation does, and what is made of evaluations, can happen.
theorem Run.arrives (h : Run C es S) {x : Evaluators → Exec α}
    (hx : ∀ {ev ev'}, (possible C S).Tied ev ev' → (possible C S).Tracks (x ev) (x ev')) :
    Arrives C S (x (evaluators n) S.world) := by
  obtain ⟨w, hw, hsteps⟩ := h.exists_start
  have htracks := hx (watched C n w hw none ⟨S, es, hsteps⟩)
  obtain ⟨harrives, hsame⟩ := possible.tracks_iff.mp htracks S.world (.refl S)
  exact hsame ▸ harrives

theorem Run.described_arrives (h : Run C es S) (n env : Nat) (description host port : Expr)
    (line : Nat) :
    Arrives C S (Eval.described (evaluators n) env description host port line S.world) := by
  have L := possible.lawful C S
  refine h.arrives (x := fun ev => Eval.described ev env description host port line) fun T => ?_
  apply (T.expr env description).bind L
  intro d
  apply (Tracks.atLine L line (of_require L _)).bind L
  intro d
  exact (Tracks.atLine L line (Simulation.endpoint L T env host port)).bind L fun _ => of_pure _

theorem builtin_listen (ev : Evaluators) (env ref : Nat) (w : World) :
    Eval.builtin ev env [.server ref] .listen w =
      Outcome.next (Eval.serve ref w) fun _ => pure .void := by
  rw [← Exec.bind_eq_next]
  rfl

theorem builtin_close (ev : Evaluators) (env ref : Nat) (w : World) :
    Eval.builtin ev env [.client ref] .close w =
      Outcome.next (Eval.holding ref (Eval.disconnect ref) w) fun _ => pure .void := by
  rw [← Exec.bind_eq_next]
  rfl

theorem builtin_send (ev : Evaluators) (env ref : Nat) (v : Value) (w : World) :
    Eval.builtin ev env [.client ref, v] .send w =
      Outcome.next (Eval.request ev ref (w.heap.display v) w) fun reply => pure (.str reply) := by
  rw [← Exec.bind_eq_next]
  rfl

theorem Run.operates (h : Run C es S) (n : Nat) : Operates C n es S where
  client env name host port line := by
    have L := possible.lawful C S
    rw [evaluators_succ]
    refine .of_arrives (h.arrives
      (x := fun ev => Exec.atLine line (Eval.endpoint ev env host port))
      fun T => Tracks.atLine L line (Simulation.endpoint L T env host port)) fun T endpoint => ?_
    exact ⟨_, .opens T endpoint, rfl⟩
  server env name handler description host port line f hf := by
    rw [evaluators_succ]
    simp only [Eval.stmt, Eval.server_eq hf]
    refine .of_arrives (h.described_arrives n env description host port line) fun T p => ?_
    exact ⟨_, .offers T _, rfl⟩
  builtin env e name b hname hb := by
    have L := possible.lawful C S
    have hinvoke : Eval.invoke (evaluators n) env name =
        fun values => Eval.builtin (evaluators n) env values b := by
      funext values
      rw [Eval.invoke, hb]
    rw [evaluators_succ]
    simp only [Eval.expr_of_callName? hname, hinvoke, Exec.atLine_bind]
    exact .of_arrives (h.arrives
      (x := fun ev => Exec.atLine e.line (e.operands.mapM (ev.expr env)))
      fun T => Tracks.atLine L e.line (of_mapM L (T.expr env) _)) fun T values => rfl
  listen env ref := by
    rw [builtin_listen, Eval.serve_apply]
    cases hrefused : S.world.options.host.network.refusal? S.world.asked S.world.listeners
        (S.world.heap.server ref).endpoint with
    | none => exact .inl ⟨_, .listens hrefused, rfl⟩
    | some reason => exact .inr ⟨reason, hrefused, rfl⟩
  send env ref v href :=
    ⟨_, request_served (watched C n).honest h href _, builtin_send _ env ref v S.world⟩
  close env ref := by
    rw [builtin_close, holding_disconnect]
    cases hheld : (S.world.heap.client ref).held with
    | true => exact .inl ⟨hheld, rfl⟩
    | false => exact .inr ⟨_, .closes hheld, rfl⟩
  call f args hframes hnodup := callEnds (Frames.mem_chain_self _ hframes) hnodup

end Channel

end Parlance
