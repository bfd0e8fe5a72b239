import Parlance.Host.Local
import Parlance.Proofs.Channel.Operations
import Parlance.Proofs.Channel.Progress

namespace Parlance

theorem World.unconnected_fresh (console : Console) (options : Options) :
    (World.fresh console options).Unconnected :=
  ⟨rfl, rfl, rfl, rfl⟩

namespace Channel

variable {C : Conduct} {es more : List Event} {S T U : State} {ref : Nat}

-- Something leaves a client without a connection: it is closed, or its request fails.
inductive Parts (S : State) (ref : Nat) : Event → Prop
  | closes (link : Option Nat) : Parts S ref (.closes ref link)
  | loses {i k : Nat} {text : String} (hsend : S.sends i = .waiting ref text k) :
    Parts S ref (.returns i k none)

-- From then on the client is like a new one, until a send takes it.
theorem Run.fresh_of_parts (h : Run C es S) (href : ref < S.heap.clients.size) {e : Event}
    (hparts : Parts S ref e) (hstep : Step C S [e] T) (hsteps : Steps C T more U)
    (hmore : ∀ e ∈ more, e.client? ≠ some ref) :
    U.heap.client ref = .fresh (S.heap.client ref).endpoint := by
  have hfresh : T.heap.client ref = .fresh (S.heap.client ref).endpoint := by
    cases hparts with
    | closes link => exact hstep.client_of_closes
    | loses hsend => exact hstep.client_of_returns h hsend
  have hfree : (T.heap.client ref).held = false := by
    rw [hfresh]
    rfl
  rw [hsteps.untouched (h.step hstep) (hstep.endpoint_eq href).1 hfree hmore, hfresh]

-- What has happened to channels, and what can still happen to them.
structure Reliable (C : Conduct) (es : List Event) (S : State) : Prop where
  -- What happens at a connection are exchanges, one after another. In each of them the handler
  -- of the server is called once, with the text that has been sent, and what comes of the call
  -- goes to the send whose text it was. An exchange that fails is the last one.
  conversations : ∀ k, conversation k es ≠ [] →
    ∃ (server : Nat) (s : Server) (i : Nat) (past : List Exchange) (since : List Event)
      (status : Status),
    .offers server s ∈ es ∧ .listens server ∈ es ∧
    conversation k es =
      .dials i k server :: (past.flatMap (Exchange.events k s.handler) ++ since) ∧
    (∀ x ∈ past, x.Conforms C s.handler ∧ x.reply?.isSome = true) ∧
    Since C k s.handler status since
  -- No send is written twice, or gets two answers.
  sends : ∀ i, (∃ rest, Course i (sending i es ++ rest)) ∧
    (S.sends i = .done → Course i (sending i es))
  replies : ∀ i k reply, .returns i k reply ∈ es →
    ∃ (server : Nat) (s : Server) (x : Exchange) (past later : List Event),
    .offers server s ∈ es ∧ x.send = i ∧ x.reply? = reply ∧ x.Conforms C s.handler ∧
    conversation k es = past ++ (x.events k s.handler ++ later)
  -- No send is lost.
  completes : ∀ i ref text k, S.sends i = .waiting ref text k → text ≠ "" →
    ∃ server s past since, .offers server s ∈ es ∧ conversation k es = past ++ since ∧
      Pending C S i k s.handler text since
  -- A client that has been closed, or whose request has failed, connects again.
  parts : ∀ ref e T more U, ref < S.heap.clients.size → Parts S ref e → Step C S [e] T →
    Steps C T more U → (∀ e ∈ more, e.client? ≠ some ref) →
    U.heap.client ref = .fresh (S.heap.client ref).endpoint
  connects : ∀ i ref endpoint text server, S.sends i = .idle → ref < S.heap.clients.size →
    S.heap.client ref = .fresh endpoint →
    S.network.connect S.world.asked S.world.listeners endpoint = .ok server → text ≠ "" →
    ∃ k s A, .offers server s ∈ es ∧ .listens server ∈ es ∧
      Steps C S [.begins i ref text none, .dials i k server, .posts i k text,
        .invokes k globals s.handler [.str text] A.world] A ∧
      Answered C A i k s.handler text
  continues : ∀ i ref endpoint k text, S.sends i = .idle → ref < S.heap.clients.size →
    S.heap.client ref = ⟨endpoint, some k, false⟩ → text ≠ "" →
    ∃ server s A, .offers server s ∈ es ∧
      Steps C S [.begins i ref text (some k), .posts i k text,
        .invokes k globals s.handler [.str text] A.world] A ∧
      Answered C A i k s.handler text

theorem Run.reliable (h : Run C es S) : Reliable C es S where
  conversations k hk := by
    by_cases hlt : k < S.heap.connections.size
    · obtain ⟨server, s, status, hs, hlistens, htalk, -⟩ := h.sound.talks k hlt
      obtain ⟨i, past, since, heq, hpast, hsince⟩ := htalk.exchanges
      exact ⟨server, s, i, past, since, status, h.sound.offered server s hs, hlistens, heq, hpast,
        hsince⟩
    · exact absurd (h.sound.unused k (Nat.le_of_not_lt hlt)).1 hk
  sends i := by
    have hlife := h.life i
    refine ⟨hlife.course, fun hdone => ?_⟩
    rw [hdone] at hlife
    exact hlife.of_done
  replies i k reply hreturns := by
    have hmem : .returns i k reply ∈ conversation k es := by
      simpa [conversation, Event.connection?] using hreturns
    by_cases hlt : k < S.heap.connections.size
    · obtain ⟨server, s, status, hs, -, htalk, -⟩ := h.sound.talks k hlt
      obtain ⟨x, past, later, hsend, hreply, hx, heq⟩ := htalk.exists_of_returns hmem
      exact ⟨server, s, x, past, later, h.sound.offered server s hs, hsend, hreply, hx, heq⟩
    · rw [(h.sound.unused k (Nat.le_of_not_lt hlt)).1] at hmem
      cases hmem
  completes _ _ _ _ hsend htext := h.completes hsend htext
  parts _ _ _ _ _ href hparts hstep hsteps hmore := h.fresh_of_parts href hparts hstep hsteps hmore
  connects _ _ _ _ _ hidle href hclient hconnect htext :=
    h.exchanges_fresh hidle href hclient hconnect htext
  continues _ _ _ _ _ hidle href hclient htext := h.exchanges_linked hidle href hclient htext

-- However sends and closes follow one another or overlap, requests are answered once, and by the
-- handler that was named when the server came to be. The operations of programs are made of just
-- these steps, and nothing else that programs do matters to channels.
theorem requests_are_answered_once (h : Run C es S) (n : Nat) :
    Reliable C es S ∧ Operates C n es S ∧
      ∀ console options p, (Contract.stepwise C (.start (World.fresh console options))).Kept n p
        (World.fresh console options) :=
  ⟨h.reliable, h.operates n, fun console options p =>
    stepwise_kept C (World.unconnected_fresh console options) n p⟩

-- Calls during which nothing else happens.
def Conduct.undisturbed : Conduct where
  outcomes f args w r :=
    Outcome.isOver r = true ∧ ∃ n, (evaluators n).call globals f args w = r
  isOver h := h.1
  alone h := ⟨h, _, rfl⟩

-- A server that greets whoever gives a name, and a client that can reach it.
def greet : Function :=
  let greeting : Expr := .arithmetic ⟨.plus, "+", 1⟩ (.constant ⟨.string, "hello ", 1⟩)
    (.name ⟨.id, "name", 1⟩ .string)
  ⟨"greet", .string, [⟨"name", .string, none⟩], [.ret (some greeting) 1], 1⟩

def greeter : Server :=
  ⟨"greeter", ⟨"localhost", 4000⟩, greet⟩

def meeting : State :=
  .start
    { World.fresh (.captured "") ⟨true, .loopback⟩ with
      heap := ((Heap.empty.addClient greeter.endpoint).2.addServer greeter).2
      listeners := [⟨greeter.endpoint, 0⟩]
      asked := 1 }

theorem run_meeting :
    Run .undisturbed [.opens 0 greeter.endpoint, .offers 0 greeter, .listens 0] meeting := by
  have hstart := Run.start (C := .undisturbed)
    (World.unconnected_fresh (.captured "") ⟨true, .loopback⟩)
  have hoffers := (hstart.step (.opens _ greeter.endpoint)).step (.offers _ greeter)
  have haccepted : Network.loopback.refusal? 0 [] greeter.endpoint = none := by decide +kernel
  exact hoffers.step (.listens haccepted)

-- The client connects for its first request, which gets what the handler makes of it.
theorem greeting_is_answered_once :
    ∃ i k A inner v B T,
      Steps .undisturbed meeting [.begins i 0 "you" none, .dials i k 0, .posts i k "you",
        .invokes k globals greet [.str "you"] A.world] A ∧
      (evaluators 9).call globals greet [.str "you"] A.world = .ok v B.world ∧
      Steps .undisturbed A inner B ∧
      Steps .undisturbed B
        [.ends k (.ok v B.world), .returns i k (some "hello you")] T ∧
      Eval.builtin (evaluators 9) globals [.client 0, .str "you"] .send meeting.world =
        .ok (.str "hello you") T.world := by
  obtain ⟨r, hserved, hsend⟩ :=
    (requests_are_answered_once run_meeting 9).2.1.send globals 0 (.str "you") (by decide)
  have hreply : Outcome.reply?
      (Eval.builtin (evaluators 9) globals [.client 0, .str "you"] .send meeting.world) =
        some "hello you" := by decide +kernel
  rw [hsend] at hreply
  cases hserved with
  | busy | empty | refused | hangs | silent | failed => cases hreply
  | answered hasked hcall hinner hends =>
    have htext := Option.some.inj hreply
    obtain ⟨server, s, dialled, hoffers, rfl, hdialled, hsteps⟩ := hasked
    obtain ⟨rfl, rfl⟩ : server = 0 ∧ s = greeter := by simpa using hoffers
    rcases hdialled with ⟨hsome, -⟩ | ⟨-, rfl⟩
    · cases hsome
    · rw [← htext]
      exact ⟨_, _, _, _, _, _, _, hsteps, hcall, hinner, hends, hsend⟩

end Channel

end Parlance
