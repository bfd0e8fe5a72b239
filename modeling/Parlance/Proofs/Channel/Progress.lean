import Parlance.Proofs.Channel.Requests

namespace Parlance.Channel

variable {C : Conduct} {es more : List Event} {S T U : State} {i k ref server : Nat}
  {f : Function} {text : String} {endpoint : Endpoint}

-- A client that is free is as it was unless a send takes it or it is closed.
theorem Step.untouched {new : List Event} (ho : Orderly S) (hstep : Step C S new T)
    (href : ref < S.heap.clients.size) (hfree : (S.heap.client ref).held = false)
    (hnew : ∀ e ∈ new, e.client? ≠ some ref) : T.heap.client ref = S.heap.client ref := by
  have hother : ∀ {j other}, (S.sends j).client? = some other → ref ≠ other := by
    rintro j other hj rfl
    cases hfree.symm.trans (ho.active j ref hj).2
  have hne : ∀ {e : Event} {other}, e ∈ new → e.client? = some other → ref ≠ other :=
    fun he hclient heq => hnew _ he (heq ▸ hclient)
  cases hstep with
  | changes happart =>
    exact congrArg (fun cs : Array Client => cs.getD ref _) happart.clients
  | opens endpoint => exact Heap.client_addClient_of_lt href endpoint
  | ends => exact S.client_ends _ _ ref
  | offers | listens | posts | invokes | departs => rfl
  | begins => exact Heap.client_onClient_of_ne (hne (List.mem_singleton.mpr rfl) rfl) _
  | refused hsend | dials hsend | returns hsend =>
    exact Heap.client_onClient_of_ne (hother (congrArg Phase.client? hsend)) _
  | loses hsend =>
    have hclient := hother (congrArg Phase.client? hsend)
    refine (Heap.client_onClient_of_ne hclient _).trans ?_
    exact (Heap.client_leave _ _ ref).trans (if_neg hclient)
  | closes =>
    exact (Heap.client_leave _ _ ref).trans (if_neg (hne (List.mem_singleton.mpr rfl) rfl))

theorem Steps.untouched (h : Run C es S) (hsteps : Steps C S more T)
    (href : ref < S.heap.clients.size) (hfree : (S.heap.client ref).held = false)
    (hmore : ∀ e ∈ more, e.client? ≠ some ref) : T.heap.client ref = S.heap.client ref := by
  induction hsteps with
  | refl => rfl
  | step hbefore hstep ih =>
    have hsame := ih fun e he => hmore e (List.mem_append_left _ he)
    refine (hstep.untouched (h.steps hbefore).sound.orderly (hbefore.endpoint_eq href).1 ?_
      fun e he => hmore e (List.mem_append_right _ he)).trans hsame
    rw [hsame, hfree]

-- A client that has been closed is like a new one.
theorem Step.client_of_closes {link : Option Nat} (hstep : Step C S [.closes ref link] T) :
    T.heap.client ref = .fresh (S.heap.client ref).endpoint := by
  cases hstep with
  | closes hfree =>
    refine (Heap.client_leave _ ref ref).trans ((if_pos rfl).trans ?_)
    exact congrArg (Client.mk (S.heap.client ref).endpoint none) hfree

-- A call that a send waits for. Whenever it is over, the send can get what came of it.
def Answered (C : Conduct) (A : State) (i k : Nat) (f : Function) (text : String) : Prop :=
  ∀ r inner B, C.outcomes f [.str text] A.world r → Steps C A inner B → A.Resumes B →
    Outcome.world r = B.world → r.reply? ≠ some "" →
    ∃ T, Steps C B [.ends k r, .returns i k r.reply?] T

-- How far the exchange of a send that waits has come, and what comes next. Nothing else has to
-- happen before that.
inductive Pending (C : Conduct) (S : State) (i k : Nat) (f : Function) (text : String) :
    List Event → Prop
  | asked {A : State} (hcalls : Step C S [.invokes k globals f [.str text] A.world] A)
    (hanswered : Answered C A i k f text) : Pending C S i k f text [.posts i k text]
  | answering {start : World}
    (hends : ∀ r, C.outcomes f [.str text] start r → Outcome.world r = S.world →
      r.reply? ≠ some "" → ∃ T, Steps C S [.ends k r, .returns i k r.reply?] T) :
    Pending C S i k f text [.posts i k text, .invokes k globals f [.str text] start]
  | finished {start : World} {r : Outcome Value} (hr : C.outcomes f [.str text] start r)
    (hreturns : r.reply? ≠ some "" → ∃ T, Step C S [.returns i k r.reply?] T) :
    Pending C S i k f text [.posts i k text, .invokes k globals f [.str text] start, .ends k r]

-- A send gets the text that its server has written, unless that is empty.
theorem Step.exists_returns {x : Exchange} (hsend : S.sends x.send = .waiting ref text k)
    (hfits : Fits S k server f (.finished x)) (hreply : x.reply? ≠ some "") :
    ∃ T, Step C S [.returns x.send k x.reply?] T := by
  rcases receive_runs (C := C) hsend hfits with ⟨t, -, hempty⟩ | ⟨T, hreturns, -⟩
  · exact absurd hempty hreply
  · exact ⟨T, hreturns⟩

-- A request that is being answered gets what comes of the call.
theorem Run.concludes (h : Run C es S) (hsend : S.sends i = .waiting ref text k) {start : World}
    (hturn : S.turns k = .answering f [.str text] start) {r : Outcome Value}
    (hr : C.outcomes f [.str text] start r) (hworld : Outcome.world r = S.world)
    (hreply : r.reply? ≠ some "") : ∃ T, Steps C S [.ends k r, .returns i k r.reply?] T := by
  obtain ⟨hends, hsend', server, hfits⟩ := h.ends hsend hturn hr hworld
  obtain ⟨T, hreturns⟩ := Step.exists_returns (C := C) hsend' hfits hreply
  exact ⟨T, (Steps.single hends).step hreturns⟩

-- A request that has been written is answered.
theorem Run.answers (h : Run C es S) (hsend : S.sends i = .waiting ref text k)
    (hfits : Fits S k server f (.asked i text)) (hf : (S.heap.server server).handler = f)
    (htext : text ≠ "") :
    Step C S [.invokes k globals f [.str text] (S.calls k f text).world] (S.calls k f text) ∧
      Answered C (S.calls k f text) i k f text := by
  have hcalls : Step C S _ (S.calls k f text) :=
    .calls (h.talk hsend).1 hfits hf (mt String.isEmpty_iff.mp htext)
  refine ⟨hcalls, fun r inner B hr hinner hresumes hworld hreply => ?_⟩
  have hrun := h.steps ((Steps.single hcalls).trans hinner)
  have hcalled : (S.calls k f text).sends i = .waiting ref text k := hsend
  have hturn := S.turns_calls k f text
  have hsend' : B.sends i = .waiting ref text k := by
    rw [hresumes.sends i (by simp [hcalled]), hcalled]
  have hturn' : B.turns k = .answering f [.str text] (S.calls k f text).world := by
    rw [hresumes.turns k _ _ _ hturn, hturn]
  exact hrun.concludes hsend' hturn' hr hworld hreply

-- So is one that has begun, once its client has a connection.
theorem Run.exchanges (h : Run C es S) (hsend : S.sends i = .started ref text)
    (hsome : (S.heap.client ref).connection = some k) (htext : text ≠ "") :
    ∃ s A, .offers (S.heap.connection k).server s ∈ es ∧
      Steps C S [.posts i k text, .invokes k globals s.handler [.str text] A.world] A ∧
      Answered C A i k s.handler text := by
  obtain ⟨server, s, rfl, hs, hoffers, hfits⟩ := h.posts hsend hsome
  have hposts := Step.posts (C := C) hsend hsome
  obtain ⟨hcalls, hanswered⟩ :=
    (h.step hposts).answers (update_self _ _ _) hfits (Heap.handler_eq hs) htext
  exact ⟨s, _, hoffers, (Steps.single hposts).step hcalls, hanswered⟩

-- The exchange of a send that waits has begun, and can always be brought to an end.
theorem Run.completes (h : Run C es S) (hsend : S.sends i = .waiting ref text k)
    (htext : text ≠ "") :
    ∃ server s past since, .offers server s ∈ es ∧ conversation k es = past ++ since ∧
      Pending C S i k s.handler text since := by
  have hk := (h.talk hsend).1
  obtain ⟨server, s, status, hs, -, htalk, hfits⟩ := h.sound.talks k hk
  obtain ⟨first, past, since, heq, -, hsince⟩ := htalk.exchanges
  have hsender := hfits.waiting i ref text hsend
  refine ⟨server, s, .dials first k server :: past.flatMap (Exchange.events k s.handler), since,
    h.sound.offered server s hs, heq, ?_⟩
  cases hsince with
  | idle | failed | closed | left => cases hsender
  | asked =>
    cases hsender
    obtain ⟨hcalls, hanswered⟩ := h.answers hsend hfits (Heap.handler_eq hs) htext
    exact .asked hcalls hanswered
  | answering =>
    cases hsender
    exact .answering fun r hr hworld hreply => h.concludes hsend hfits.turn hr hworld hreply
  | finished hx =>
    cases hsender
    exact .finished hx fun hreply => Step.exists_returns hsend hfits hreply

-- A send on a client that is free begins with the connection that the client has.
theorem Run.exchanges_linked (h : Run C es S) (hidle : S.sends i = .idle)
    (href : ref < S.heap.clients.size) (hclient : S.heap.client ref = ⟨endpoint, some k, false⟩)
    (htext : text ≠ "") :
    ∃ server s A, .offers server s ∈ es ∧
      Steps C S [.begins i ref text (some k), .posts i k text,
        .invokes k globals s.handler [.str text] A.world] A ∧
      Answered C A i k s.handler text := by
  obtain ⟨T, -, hbegins, hbegun, hsome⟩ := begins_linked (C := C) hidle href
    (congrArg Client.held hclient) (congrArg Client.connection hclient) text
  obtain ⟨s, A, hoffers, hsteps, hanswered⟩ :=
    (h.steps hbegins).exchanges hbegun.phase_eq hsome htext
  exact ⟨_, s, A, by simpa using hoffers, hbegins.trans hsteps, hanswered⟩

-- A client without a connection gets one first.
theorem Run.exchanges_fresh (h : Run C es S) (hidle : S.sends i = .idle)
    (href : ref < S.heap.clients.size) (hclient : S.heap.client ref = .fresh endpoint)
    (hconnect : S.network.connect S.world.asked S.world.listeners endpoint = .ok server)
    (htext : text ≠ "") :
    ∃ k s A, .offers server s ∈ es ∧ .listens server ∈ es ∧
      Steps C S [.begins i ref text none, .dials i k server, .posts i k text,
        .invokes k globals s.handler [.str text] A.world] A ∧
      Answered C A i k s.handler text := by
  have hreached : S.network.connect S.world.asked S.world.listeners
      (S.heap.client ref).endpoint = .ok server := by
    rw [hclient]
    exact hconnect
  obtain ⟨k, T, -, hbegins, hbegun, hsome, rfl⟩ := begins_dialled (C := C) hidle href
    (congrArg Client.held hclient) (congrArg Client.connection hclient) text hreached
  obtain ⟨s, A, hoffers, hsteps, hanswered⟩ :=
    (h.steps hbegins).exchanges hbegun.phase_eq hsome htext
  obtain ⟨l, hl, hserver⟩ := S.network.reaches hconnect
  refine ⟨k, s, A, by simpa using hoffers, ?_, hbegins.trans hsteps, hanswered⟩
  rw [← hserver]
  exact (h.sound.listening l hl).2

end Parlance.Channel
