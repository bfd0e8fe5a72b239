import Parlance.Proofs.Channel.Sending
import Parlance.Proofs.Simulation.Keeping

namespace Parlance.Channel

open Eval

variable {C : Conduct} {es : List Event} {S T U : State} {ev ev' : Evaluators}
  {i ref k server : Nat} {f : Function} {text : String}

-- All that was under way is as it was, and what has begun since is over.
structure State.Resumes (S T : State) : Prop where
  sends : ∀ i, S.sends i ≠ .idle → T.sends i = S.sends i
  idle : ∀ i, S.sends i = .idle → (T.sends i).client? = none
  turns : ∀ k f args start, S.turns k = .answering f args start → T.turns k = S.turns k

namespace State.Resumes

theorem of_eq (hsends : T.sends = S.sends) (hturns : T.turns = S.turns) : S.Resumes T where
  sends i _ := congrFun hsends i
  idle i hi := by rw [hsends, hi, Phase.client?]
  turns k _ _ _ _ := congrFun hturns k

theorem trans (h : S.Resumes T) (h' : T.Resumes U) : S.Resumes U where
  sends i hi := by
    have heq := h.sends i hi
    rw [h'.sends i (heq ▸ hi), heq]
  idle i hi := by
    cases hphase : T.sends i with
    | idle => exact h'.idle i hphase
    | done => rw [h'.sends i (by simp [hphase]), hphase, Phase.client?]
    | started ref text =>
      have hnone := h.idle i hi
      rw [hphase] at hnone
      cases hnone
    | waiting ref text k =>
      have hnone := h.idle i hi
      rw [hphase] at hnone
      cases hnone
  turns k f args start hk := by
    have heq := h.turns k f args start hk
    rw [h'.turns k f args start (heq.trans hk), heq]

end State.Resumes

-- The worlds that can be come to while all that is under way waits.
def Reaches (C : Conduct) (S : State) (w : World) : Prop :=
  ∃ es T, Steps C S es T ∧ T.world = w ∧ S.Resumes T

namespace Reaches

variable {w t : World}

theorem refl (S : State) : Reaches C S S.world :=
  ⟨[], S, .refl, rfl, .of_eq rfl rfl⟩

-- A step that no send and no server takes.
theorem step (h : Reaches C S w) (hstep : ∀ T : State, T.world = w →
    ∃ new, Step C T new { T with world := t }) : Reaches C S t := by
  obtain ⟨es, T, hsteps, hworld, hresumes⟩ := h
  obtain ⟨new, hnew⟩ := hstep T hworld
  exact ⟨es ++ new, { T with world := t }, hsteps.step hnew, rfl, hresumes.trans (.of_eq rfl rfl)⟩

theorem apart (h : Reaches C S w) (happart : w.Apart t) : Reaches C S t :=
  h.step fun _ hworld => ⟨[], .changes (hworld ▸ happart)⟩

-- A network is asked whenever others have asked before.
theorem listens (h : Reaches C S w) {turn : Nat}
    (haccepted : w.options.host.network.refusal? turn w.listeners (w.heap.server ref).endpoint =
      none) :
    Reaches C S { w with listeners := ⟨(w.heap.server ref).endpoint, ref⟩ :: w.listeners } := by
  have hturn : Reaches C S { w with asked := turn } := h.apart ⟨rfl, rfl, rfl, rfl, rfl⟩
  have hlistens : Reaches C S { w with
      asked := turn + 1
      listeners := ⟨(w.heap.server ref).endpoint, ref⟩ :: w.listeners } :=
    hturn.step fun T hworld => by
      refine ⟨[.listens ref], ?_⟩
      have hstep : Step C T [.listens ref] (T.asking.listening ref) := by
        refine .listens ?_
        rw [State.network, State.heap, hworld]
        exact haccepted
      rw [State.listening, State.asking, State.heap, hworld] at hstep
      exact hstep
  exact hlistens.apart ⟨rfl, rfl, rfl, rfl, rfl⟩

theorem kept (C : Conduct) (S : State) : Kept id False (Reaches C S) fun _ => True where
  writes _ _ := rfl
  reads _ := rfl
  frames h _ := h.apart ⟨rfl, rfl, rfl, rfl, rfl⟩
  write h _ := h.apart ⟨rfl, rfl, rfl, rfl, rfl⟩
  read h := h.apart ⟨rfl, rfl, rfl, rfl, rfl⟩
  asks h _ := h.apart ⟨rfl, rfl, rfl, rfl, rfl⟩
  functions h _ := h.apart ⟨rfl, rfl, rfl, rfl, rfl⟩
  heap h _ hclients hservers hconnections _ :=
    h.apart ⟨hclients, hservers, hconnections, rfl, rfl⟩
  listens h haccepted := h.listens haccepted
  closes h hfree := h.step fun T hworld => by
    subst hworld
    exact ⟨_, .closes hfree⟩
  client h endpoint := h.step fun T hworld => by
    subst hworld
    exact ⟨_, .opens T endpoint⟩
  server h server := h.step fun T hworld => by
    subst hworld
    exact ⟨_, .offers T server⟩
  spends _ _ _ := trivial
  released _ _ := trivial

theorem stores (C : Conduct) (S : State) :
    (keeping id False (Reaches C S) fun _ => True).Stores := by
  intro w h v slot
  exact h.apart ⟨w.heap.clients_put v slot, w.heap.servers_put v slot,
    w.heap.connections_put v slot, rfl, rfl⟩

theorem trans (hsteps : Steps C S es T) (hresumes : S.Resumes T) (h : Reaches C T t) :
    Reaches C S t := by
  obtain ⟨more, U, hmore, hworld, hresumes'⟩ := h
  exact ⟨es ++ more, U, hsteps.trans hmore, hworld, hresumes.trans hresumes'⟩

end Reaches

-- An outcome that leaves such a world, unless fuel has run out.
def Arrives (C : Conduct) {α : Type} (S : State) (r : Outcome α) : Prop :=
  Outcome.isOver r = true → Reaches C S (Outcome.world r)

theorem Arrives.trans {α : Type} {r : Outcome α} (hsteps : Steps C S es T)
    (hresumes : S.Resumes T) (h : Arrives C T r) : Arrives C S r :=
  fun hover => (h hover).trans hsteps hresumes

-- Handlers that run do nothing but what can happen, and what comes of them can come of them.
structure Honest (C : Conduct) (ev : Evaluators) : Prop where
  arrives : ∀ es S, Run C es S → ∀ f args, Arrives C S (ev.call globals f args S.world)
  conforms : ∀ f args w, Outcome.isOver (ev.call globals f args w) = true →
    C.outcomes f args w (ev.call globals f args w)

theorem awaiting_eq {read? : Connection → Option (Option String × Connection)}
    {message : Option String} {c : Connection} {w : World}
    (h : read? (w.heap.connection k) = some (message, c)) :
    awaiting k read? w = .ok message { w with heap := w.heap.onConnection k fun _ => c } := by
  rw [awaiting, h]

theorem awaiting_none {read? : Connection → Option (Option String × Connection)} {w : World}
    (h : read? (w.heap.connection k) = none) : awaiting k read? w = .error .outOfFuel w := by
  rw [awaiting, h]

-- What a server has to say depends on the call of its handler only.
theorem answer?_eq {w : World} {request : String} {r : Outcome Value}
    (hf : (w.heap.server server).handler = f) (hr : ev.call globals f [.str request] w = r) :
    answer? ev server request w =
      if Outcome.isOver r then .ok r.reply? (Outcome.world r)
      else .error .outOfFuel (Outcome.world r) := by
  rw [answer?, Exec.bind_apply, Exec.get_apply]
  simp only [Exec.bind_apply, Exec.attempt, hf, hr]
  cases r with
  | ok v t => rfl
  | error stop t => cases stop <;> rfl

-- What a server says once its handler has come to an end.
def concluding (k : Nat) (reply : Option String) : Exec Unit :=
  reply.elim (onConnection k .hangUp) fun reply => onConnection k (·.reply reply)

theorem turn_eq {w : World} {c : Connection}
    (hfetch : (w.heap.connection k).fetch? = some (some text, c)) :
    turn ev k w =
      Outcome.next
        (answer? ev ((w.heap.onConnection k fun _ => c).connection k).server text
          { w with heap := w.heap.onConnection k fun _ => c }) (concluding k) := by
  rw [turn, Exec.bind_apply, awaiting_eq hfetch]
  simp only [Exec.bind_apply, Exec.get_apply]
  cases answer? ev ((w.heap.onConnection k fun _ => c).connection k).server text
      { w with heap := w.heap.onConnection k fun _ => c } with
  | ok reply t => cases reply <;> rfl
  | error s t => rfl

theorem concluding_apply (S : State) (k : Nat) (reply : Option String) :
    concluding k reply S.world = .ok () (S.ends k reply).world := by
  cases reply <;> rfl

-- The conversation for which a send waits.
theorem Run.talk (h : Run C es S) (hsend : S.sends i = .waiting ref text k) :
    k < S.heap.connections.size ∧ ∃ server s status, S.heap.servers[server]? = some s ∧
      .offers server s ∈ es ∧ Fits S k server s.handler status ∧
      status.sender? = some (i, text) := by
  have hk := h.sound.orderly.range ref k (h.sound.orderly.waiting i ref text k hsend)
  obtain ⟨server, s, status, hs, -, -, hfits⟩ := h.sound.talks k hk
  exact ⟨hk, server, s, status, hs, h.sound.offered server s hs, hfits,
    hfits.waiting i ref text hsend⟩

-- The server answers the send that waits.
theorem Run.answering (h : Run C es S) (hsend : S.sends i = .waiting ref text k)
    {args : List Value} {start : World} (hturn : S.turns k = .answering f args start) :
    k < S.heap.connections.size ∧ args = [.str text] ∧
      ∃ server, Fits S k server f (.answering i text start) := by
  obtain ⟨hk, server, s, status, -, -, hfits, hsender⟩ := h.talk hsend
  obtain ⟨j, message, rfl, rfl, rfl⟩ := hfits.eq_answering hturn
  cases hsender
  exact ⟨hk, rfl, server, hfits⟩

-- The state in which a server has read a request and calls its handler.
def State.calls (S : State) (k : Nat) (f : Function) (text : String) : State :=
  let read := S.fetched k { S.heap.connection k with requests := .fresh }
  read.turn k (.answering f [.str text] read.world)

theorem State.turns_calls (S : State) (k : Nat) (f : Function) (text : String) :
    (S.calls k f text).turns k = .answering f [.str text] (S.calls k f text).world :=
  update_self _ _ _

theorem Fits.fetch? (h : Fits S k server f (.asked i text)) (htext : ¬text.isEmpty = true) :
    (S.heap.connection k).fetch? =
      some (some text, { S.heap.connection k with requests := .fresh }) := by
  rw [Connection.fetch?, h.requests, Status.requests, Stream.read?_write htext]
  rfl

theorem Step.calls (hk : k < S.heap.connections.size) (hfits : Fits S k server f (.asked i text))
    (hf : (S.heap.server server).handler = f) (htext : ¬text.isEmpty = true) :
    Step C S [.invokes k globals f [.str text] (S.calls k f text).world] (S.calls k f text) := by
  rw [← hfits.server] at hf
  exact .invokes hk hfits.turn (hfits.fetch? htext) hf

theorem turn_of_isEmpty (hfits : Fits S k server f (.asked i text))
    (htext : text.isEmpty = true) : turn ev k S.world = .error .outOfFuel S.world := by
  have hfetch : (S.heap.connection k).fetch? = none := by
    rw [Connection.fetch?, hfits.requests, Status.requests, Stream.read?_write_of_isEmpty htext]
    rfl
  rw [turn, Exec.bind_apply, awaiting_none hfetch]

-- A server that has read a request calls its handler, and says what came of the call.
theorem turn_of_asked (hk : k < S.heap.connections.size)
    (hfits : Fits S k server f (.asked i text)) (htext : ¬text.isEmpty = true) :
    turn ev k S.world =
      Outcome.next (answer? ev server text (S.calls k f text).world) (concluding k) := by
  have hserver : ((S.calls k f text).world.heap.connection k).server = server :=
    (congrArg Connection.server (Heap.connection_onConnection_self hk _)).trans hfits.server
  rw [← hserver]
  exact turn_eq (hfits.fetch? htext)

-- When the call is over, the send can have what came of it.
theorem Run.ends (h : Run C es S) (hsend : S.sends i = .waiting ref text k) {start : World}
    (hturn : S.turns k = .answering f [.str text] start) {r : Outcome Value}
    (hr : C.outcomes f [.str text] start r) (hworld : Outcome.world r = S.world) :
    Step C S [.ends k r] (S.ends k r.reply?) ∧
      (S.ends k r.reply?).sends i = .waiting ref text k ∧
      ∃ server, Fits (S.ends k r.reply?) k server f (.finished ⟨i, text, start, r⟩) := by
  obtain ⟨hk, -, server, hfits⟩ := h.answering hsend hturn
  refine ⟨.ends hk hturn hr hworld, ?_, server, ?_⟩
  · rw [State.sends_ends, hsend]
  · exact Fits.ends (x := ⟨i, text, start, r⟩) hfits hk

-- What becomes of a request that has been read: its handler hangs, or the server says what came
-- of the call.
theorem turn_runs (hev : Honest C ev) (h : Run C es S) (hsend : S.sends i = .waiting ref text k)
    (hfits : Fits S k server f (.asked i text)) (hf : (S.heap.server server).handler = f)
    (htext : ¬text.isEmpty = true) {r : Outcome Value}
    (hr : ev.call globals f [.str text] (S.calls k f text).world = r) :
    (Outcome.isOver r = false ∧ turn ev k S.world = .error .outOfFuel (Outcome.world r)) ∨
      ∃ inner T, T.world = Outcome.world r ∧ Steps C (S.calls k f text) inner T ∧
        turn ev k S.world = .ok () (T.ends k r.reply?).world ∧
        Step C T [.ends k r] (T.ends k r.reply?) ∧
        (T.ends k r.reply?).sends i = .waiting ref text k ∧
        (∃ server, Fits (T.ends k r.reply?) k server f
          (.finished ⟨i, text, (S.calls k f text).world, r⟩)) ∧
        S.Resumes (T.ends k r.reply?) := by
  have hk := (h.talk hsend).1
  have hcalls : Step C S _ (S.calls k f text) := .calls hk hfits hf htext
  rw [turn_of_asked hk hfits htext, answer?_eq (w := (S.calls k f text).world) hf hr]
  cases hover : Outcome.isOver r with
  | false => exact .inl ⟨rfl, rfl⟩
  | true =>
    have harrives := hev.arrives _ _ (h.step hcalls) f [.str text]
    have hconforms := hev.conforms f [.str text] (S.calls k f text).world
    rw [hr] at harrives hconforms
    obtain ⟨inner, T, hinner, hworld, hresumes⟩ := harrives hover
    have hsendT : T.sends i = .waiting ref text k :=
      (hresumes.sends i (by simp [State.calls, State.fetched, hsend])).trans hsend
    have hturnT := (hresumes.turns k _ _ _ (S.turns_calls k f text)).trans (S.turns_calls k f text)
    have hrun := h.steps ((Steps.single hcalls).trans hinner)
    obtain ⟨hends, hsendE, hfitsE⟩ := hrun.ends hsendT hturnT (hconforms hover) hworld.symm
    refine .inr ⟨inner, T, hworld, hinner, ?_, hends, hsendE, hfitsE, ?_⟩
    · rw [if_pos rfl, ← hworld]
      exact concluding_apply T k r.reply?
    · have hsame := T.sends_ends k r.reply?
      refine ⟨fun j hj => ?_, fun j hj => ?_, fun l g args start hl => ?_⟩
      · rw [hsame]
        exact hresumes.sends j hj
      · rw [hsame]
        exact hresumes.idle j hj
      · have hne : l ≠ k := by
          rintro rfl
          cases hl.symm.trans hfits.turn
        have hsameTurn : (S.calls k f text).turns l = S.turns l := update_of_ne hne _ _
        rw [T.turns_ends _ _ hne, hresumes.turns l g args start (hsameTurn.trans hl), hsameTurn]

end Parlance.Channel
