import Parlance.Proofs.Grammar.Reading

namespace Parlance.Grammar

-- The number of tokens that are left to read. The end of the text is none of them.
def State.left (s : State) : Nat :=
  s.tokens.countP fun token => token.kind != .eof

-- A reader that may be used only where fewer than `n` tokens are left.
def below {α : Type} (n : Nat) (x : Parse α) : Parse α :=
  fun s => if s.left < n then x s else .error .outOfFuel

theorem below_of_lt {α : Type} {n : Nat} {s : State} (h : s.left < n) (x : Parse α) :
    below n x s = x s :=
  if_pos h

-- Every token but the end is left no more once it has been taken.
theorem State.left_advance {s t : State} {token : Token} (h : advance s = .ok (token, t))
    (hkind : s.current.kind ≠ .eof) : t.left < s.left := by
  have hleft : s.left = s.rest.countP (fun token => token.kind != .eof) + 1 := by
    rw [State.left, State.tokens, List.countP_cons_of_pos (by simpa using hkind)]
  rw [hleft]
  unfold Grammar.advance at h
  split at h
  · next hrest =>
    cases h
    simp [State.left, State.tokens, hrest]
  · next next rest hrest =>
    cases h
    rw [hrest]
    exact Nat.lt_succ_self _

-- When nothing is left behind the current token, the end of the text comes next, and comes
-- next again and again.
theorem State.advance_of_rest_nil {s t : State} {token : Token} (h : advance s = .ok (token, t))
    (hrest : s.rest = []) : t.current.kind = .eof ∧ t.rest = [] := by
  rw [Grammar.advance, hrest] at h
  cases h
  exact ⟨rfl, rfl⟩

-- The reasons to stop that count as answers. Failures do.
structure Verdicts where
  counts : Stop → Prop
  fault : ∀ f, counts (.fault f)

namespace Verdicts

-- Whatever a reader stops for.
def any : Verdicts :=
  ⟨fun _ => True, fun _ => trivial⟩

-- Failures only, so that running out of fuel is no answer.
def failure : Verdicts :=
  ⟨fun stop => ∃ f, stop = .fault f, fun f => ⟨f, rfl⟩⟩

end Verdicts

-- An answer of a reader after which fewer than `n` tokens are left.
def Answers {α : Type} (V : Verdicts) (n : Nat) : Except Stop (α × State) → Prop
  | .ok (_, t) => t.left < n
  | .error stop => V.counts stop

-- Two readers give the same answer in the state `s`, and leave fewer than `n` tokens.
structure Agree {α : Type} (V : Verdicts) (n : Nat) (s : State) (x y : Parse α) : Prop where
  same : x s = y s
  answers : Answers V n (x s)

namespace Agree

variable {α β : Type} {V : Verdicts} {n m : Nat} {s : State} {x y : Parse α}

theorem mono (h : Agree V n s x y) (hle : n ≤ m) : Agree V m s x y := by
  refine ⟨h.same, ?_⟩
  have hanswers := h.answers
  cases hx : x s with
  | ok at' =>
    rw [hx] at hanswers
    exact Nat.lt_of_lt_of_le hanswers hle
  | error stop =>
    rw [hx] at hanswers
    exact hanswers

-- What comes after a reader is decided where the reader leads.
theorem next {z : Parse α} {f g : α → Parse β} {a : α} {t : State} (hz : z s = .ok (a, t))
    (h : Agree V n t (f a) (g a)) : Agree V n s (z >>= f) (z >>= g) := by
  have hbind : ∀ k : α → Parse β, (z >>= k) s = k a t := by
    intro k
    show (z s >>= fun p => k p.1 p.2) = k a t
    rw [hz]
    rfl
  exact ⟨by rw [hbind, hbind, h.same], by rw [hbind]; exact h.answers⟩

-- Nothing comes after a reader that stops.
theorem halt {z : Parse α} {f g : α → Parse β} {stop : Stop} (hz : z s = .error stop)
    (h : V.counts stop) : Agree V n s (z >>= f) (z >>= g) := by
  have hbind : ∀ k : α → Parse β, (z >>= k) s = .error stop := by
    intro k
    show (z s >>= fun p => k p.1 p.2) = .error stop
    rw [hz]
    rfl
  exact ⟨by rw [hbind, hbind], by rw [hbind]; exact h⟩

theorem bind {f g : α → Parse β} (h : Agree V n s x y)
    (hf : ∀ a t, t.left < n → Agree V m t (f a) (g a)) : Agree V m s (x >>= f) (y >>= g) := by
  have hsame : (y >>= g) s = (x >>= g) s := by
    show (y s >>= fun p => g p.1 p.2) = (x s >>= fun p => g p.1 p.2)
    rw [h.same]
  have hanswers := h.answers
  have hx : Agree V m s (x >>= f) (x >>= g) := by
    cases hcase : x s with
    | ok at' =>
      rw [hcase] at hanswers
      exact next hcase (hf at'.1 at'.2 hanswers)
    | error stop =>
      rw [hcase] at hanswers
      exact halt hcase hanswers
  exact ⟨hx.same.trans hsame.symm, hx.answers⟩

theorem pure {a : α} (h : s.left < n) : Agree V n s (pure a) (pure a) :=
  ⟨rfl, h⟩

theorem map {f : α → β} (h : Agree V n s x y) : Agree V n s (f <$> x) (f <$> y) :=
  bind (f := fun a => Pure.pure (f a)) (g := fun a => Pure.pure (f a)) h fun _ _ ht => .pure ht

theorem fail (fault : Fault) : Agree V n s (fail fault : Parse α) (fail fault) :=
  ⟨rfl, V.fault fault⟩

theorem unexpected (wanted : String) :
    Agree V n s (unexpected wanted : Parse α) (unexpected wanted) :=
  ⟨rfl, V.fault _⟩

theorem peek {f g : Token → Parse β} (h : Agree V n s (f s.current) (g s.current)) :
    Agree V n s (Grammar.peek >>= f) (Grammar.peek >>= g) :=
  next rfl h

theorem check {kind : TokenKind} {f g : Bool → Parse β}
    (h : Agree V n s (f (decide (s.current.kind = kind))) (g (decide (s.current.kind = kind)))) :
    Agree V n s (Grammar.check kind >>= f) (Grammar.check kind >>= g) :=
  next rfl h

theorem advance {f g : Token → Parse β} (hkind : s.current.kind ≠ .eof)
    (hf : ∀ t : State, t.left < s.left → Agree V n t (f s.current) (g s.current)) :
    Agree V n s (Grammar.advance >>= f) (Grammar.advance >>= g) := by
  obtain ⟨t, ht⟩ : ∃ t, Grammar.advance s = .ok (s.current, t) := by
    unfold Grammar.advance
    split
    · exact ⟨_, rfl⟩
    · exact ⟨_, rfl⟩
  exact next ht (hf t (State.left_advance ht hkind))

-- A token of a class, which is not the end of the text, is taken or not.
theorem accept {kind : TokenKind} {f g : Bool → Parse β} (hkind : kind ≠ .eof)
    (hyes : s.current.kind = kind →
      ∀ t : State, t.left < s.left → Agree V n t (f true) (g true))
    (hno : s.current.kind ≠ kind → Agree V n s (f false) (g false)) :
    Agree V n s (Grammar.accept kind >>= f) (Grammar.accept kind >>= g) := by
  unfold Grammar.accept
  rw [bind_assoc, bind_assoc]
  refine .check ?_
  by_cases h : s.current.kind = kind
  · simp only [h, decide_true, ite_true, bind_assoc, pure_bind]
    exact .advance (h ▸ hkind) (hyes h)
  · simp only [h, decide_false, Bool.false_eq_true, ite_false, pure_bind]
    exact hno h

theorem expect {kind : TokenKind} {wanted : String} {f g : Token → Parse β}
    (hkind : kind ≠ .eof)
    (hf : ∀ token t, t.left < s.left → Agree V n t (f token) (g token)) :
    Agree V n s (Grammar.expect kind wanted >>= f) (Grammar.expect kind wanted >>= g) := by
  unfold Grammar.expect
  rw [bind_assoc, bind_assoc]
  refine .check ?_
  by_cases h : s.current.kind = kind
  · simp only [h, decide_true, ite_true]
    exact .advance (h ▸ hkind) (hf s.current)
  · simp only [h, decide_false, Bool.false_eq_true, ite_false]
    exact ⟨rfl, V.fault _⟩

theorem expectType {f g : Ty → Parse β}
    (hf : ∀ ty t, t.left < s.left → Agree V n t (f ty) (g ty)) :
    Agree V n s (Grammar.expectType >>= f) (Grammar.expectType >>= g) := by
  unfold Grammar.expectType
  rw [bind_assoc, bind_assoc]
  refine .expect (by decide) fun token t ht => ?_
  cases hty : Ty.ofKeyword? token.lexeme with
  | some ty =>
    simp only [pure_bind]
    exact hf ty t ht
  | none => exact ⟨rfl, V.fault _⟩

theorem nested {depth : Nat} {f g : Nat → Parse α}
    (h : Agree V n s (f (depth + 1)) (g (depth + 1))) :
    Agree V n s (nested depth f) (nested depth g) := by
  unfold Grammar.nested
  split
  · exact ⟨rfl, V.fault _⟩
  · exact h

-- Names make no difference to the tokens.
theorem declare {name : Token} {ty : Ty} {f g : Unit → Parse β}
    (hf : ∀ t : State, t.left = s.left → Agree V n t (f ()) (g ())) :
    Agree V n s (Grammar.declare name ty >>= f) (Grammar.declare name ty >>= g) := by
  cases h : s.scope.insert? name.lexeme ty with
  | some τ =>
    have hdeclare : Grammar.declare name ty s = .ok ((), { s with scope := τ }) := by
      rw [Grammar.declare, h]
    exact next hdeclare (hf _ rfl)
  | none =>
    have hdeclare : Grammar.declare name ty s =
        .error (.fault (.declaration (.redeclared name.lexeme) name.line)) := by
      rw [Grammar.declare, h]
    exact halt hdeclare (V.fault _)

theorem resolve {name : Token} {f g : Ty → Parse β} (hf : ∀ ty, Agree V n s (f ty) (g ty)) :
    Agree V n s (Grammar.resolve name >>= f) (Grammar.resolve name >>= g) := by
  cases h : s.scope.find? name.lexeme with
  | some ty =>
    have hresolve : Grammar.resolve name s = .ok (ty, s) := by
      rw [Grammar.resolve, h]
    exact next hresolve (hf ty)
  | none =>
    have hresolve : Grammar.resolve name s =
        .error (.fault (.declaration (.undeclared name.lexeme) name.line)) := by
      rw [Grammar.resolve, h]
    exact halt hresolve (V.fault _)

theorem inBlock {seed : Layer} (h : ∀ t : State, t.left = s.left → Agree V n t x y) :
    Agree V n s (inBlock seed x) (inBlock seed y) := by
  have hinner := h { s with scope := s.scope.push.insertAll seed } rfl
  refine next (α := PUnit) (a := ⟨⟩) (t := { s with scope := s.scope.push.insertAll seed })
    rfl ?_
  refine hinner.bind fun a t ht => ?_
  exact next (α := PUnit) (a := ⟨⟩) (t := { t with scope := t.scope.pop }) rfl (.pure ht)

end Agree

end Parlance.Grammar
