import Parlance.Proofs.Channel.Sound

namespace Parlance.Channel

variable {C : Conduct} {k server : Nat} {f : Function} {es : List Event} {status : Status}

-- What has happened since the last exchange that succeeded.
inductive Since (C : Conduct) (k : Nat) (f : Function) : Status → List Event → Prop
  | idle : Since C k f .idle []
  | asked (i : Nat) (text : String) : Since C k f (.asked i text) [.posts i k text]
  | answering (i : Nat) (text : String) (start : World) :
    Since C k f (.answering i text start)
      [.posts i k text, .invokes k globals f [.str text] start]
  | finished {x : Exchange} (hx : x.Conforms C f) :
    Since C k f (.finished x)
      [.posts x.send k x.text, .invokes k globals f [.str x.text] x.start, .ends k x.outcome]
  | failed {x : Exchange} (hx : x.Conforms C f) (hnone : x.reply? = none) :
    Since C k f .ended (x.events k f)
  | closed (ref : Nat) : Since C k f .closed [.closes ref (some k)]
  | left (ref : Nat) : Since C k f .ended [.closes ref (some k), .departs k]

-- A conversation is made of exchanges, one after another. They have succeeded, except that the
-- last one can be under way or have failed. A client that closes its connection does so between
-- exchanges.
theorem Talk.exchanges (h : Talk C k server f es status) :
    ∃ (i : Nat) (past : List Exchange) (since : List Event),
      es = .dials i k server :: (past.flatMap (Exchange.events k f) ++ since) ∧
      (∀ x ∈ past, x.Conforms C f ∧ x.reply?.isSome = true) ∧ Since C k f status since := by
  induction h with
  | dials i => exact ⟨i, [], [], rfl, by simp, .idle⟩
  | posts i text h ih =>
    obtain ⟨first, past, since, rfl, hpast, hsince⟩ := ih
    cases hsince
    exact ⟨first, past, _, by simp, hpast, .asked i text⟩
  | invokes start h ih =>
    obtain ⟨first, past, since, rfl, hpast, hsince⟩ := ih
    cases hsince
    exact ⟨first, past, _, by simp, hpast, .answering _ _ start⟩
  | ends x hx h ih =>
    obtain ⟨first, past, since, rfl, hpast, hsince⟩ := ih
    cases hsince
    exact ⟨first, past, _, by simp, hpast, .finished hx⟩
  | returns hreply h ih =>
    next es x reply =>
    obtain ⟨first, past, since, rfl, hpast, hsince⟩ := ih
    cases hsince with
    | finished hx =>
      refine ⟨first, past ++ [x], [], ?_, fun y hy => ?_, .idle⟩
      · simp [Exchange.events, hreply]
      · rcases List.mem_append.mp hy with hy | hy
        · exact hpast y hy
        · rw [List.mem_singleton.mp hy, hreply]
          exact ⟨hx, rfl⟩
  | loses hnone h ih =>
    next es x =>
    obtain ⟨first, past, since, rfl, hpast, hsince⟩ := ih
    cases hsince with
    | finished hx =>
      exact ⟨first, past, _, by simp [Exchange.events, hnone], hpast, .failed hx hnone⟩
  | closes ref h ih =>
    obtain ⟨first, past, since, rfl, hpast, hsince⟩ := ih
    cases hsince
    exact ⟨first, past, _, by simp, hpast, .closed ref⟩
  | departs h ih =>
    obtain ⟨first, past, since, rfl, hpast, hsince⟩ := ih
    cases hsince with
    | closed ref => exact ⟨first, past, _, by simp, hpast, .left ref⟩

theorem Exchange.eq_of_returns {i : Nat} {reply : Option String} {x : Exchange}
    (h : .returns i k reply ∈ x.events k f) : x.send = i ∧ x.reply? = reply := by
  simp only [events, List.mem_cons, List.not_mem_nil, or_false, reduceCtorEq, false_or,
    Event.returns.injEq] at h
  exact ⟨h.1.symm, h.2.2.symm⟩

theorem Since.exists_of_returns {i : Nat} {reply : Option String} (h : Since C k f status es)
    (hreturns : .returns i k reply ∈ es) : ∃ x : Exchange, x.Conforms C f ∧ es = x.events k f := by
  cases h with
  | failed hx => exact ⟨_, hx, rfl⟩
  | idle | asked | answering | finished | closed | left => simp at hreturns

-- A send that gets an answer has had an exchange of its own.
theorem Talk.exists_of_returns {i : Nat} {reply : Option String}
    (h : Talk C k server f es status) (hreturns : .returns i k reply ∈ es) :
    ∃ (x : Exchange) (past later : List Event), x.send = i ∧ x.reply? = reply ∧ x.Conforms C f ∧
      es = past ++ (x.events k f ++ later) := by
  obtain ⟨first, past, since, rfl, hpast, hsince⟩ := h.exchanges
  rcases List.mem_append.mp (List.mem_of_ne_of_mem (by simp) hreturns) with hbefore | hlast
  · obtain ⟨x, hx, hmem⟩ := List.mem_flatMap.mp hbefore
    obtain ⟨hsend, hreply⟩ := Exchange.eq_of_returns hmem
    obtain ⟨before, after, rfl⟩ := List.append_of_mem hx
    exact ⟨x, .dials first k server :: before.flatMap (Exchange.events k f),
      after.flatMap (Exchange.events k f) ++ since, hsend, hreply, (hpast x hx).1, by simp⟩
  · obtain ⟨x, hx, rfl⟩ := hsince.exists_of_returns hlast
    obtain ⟨hsend, hreply⟩ := Exchange.eq_of_returns hlast
    exact ⟨x, .dials first k server :: past.flatMap (Exchange.events k f), [], hsend, hreply, hx,
      by simp⟩

end Parlance.Channel
