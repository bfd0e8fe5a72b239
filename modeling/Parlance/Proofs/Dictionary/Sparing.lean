import Parlance.Proofs.Dictionary.Contents
import Parlance.Proofs.Simulation.Keeping

namespace Parlance

-- A computation gives something that a test picks out.
def Outcome.gives {α : Type} (test : α → Bool) : Outcome α → Bool
  | .ok a _ => test a
  | .error _ _ => false

-- The place is in a dictionary.
def Heap.Slot.isIn (ref : Nat) : Heap.Slot → Bool
  | .entry r _ => r == ref
  | .item _ _ => false

namespace Eval

-- The value that is assigned to an element of a collection, and the place of the element.
def placed (ev : Evaluators) (env : Nat) (container index value : Expr) :
    Exec (Value × Heap.Slot) := do
  let v ← ev.expr env value
  let c ← ev.expr env container
  let i ← ev.expr env index
  let slot ← Exec.atLine (Expr.access container index).line (Exec.reading fun h => h.slot c i)
  return (v, slot)

theorem expr_assign_access (ev : Evaluators) (env : Nat) (eq : Token)
    (container index value : Expr) :
    expr ev env (.assign eq (.access container index) value) =
      placed ev env container index value >>= fun p => do
        modify fun w => { w with heap := w.heap.put p.1 p.2 }
        return p.1 := by
  change assignment ev env (.access container index) value = _
  simp only [assignment, assign, placed, bind_assoc, pure_bind]

-- An assignment stores its value in a dictionary.
def storesIn (ref : Nat) (ev : Evaluators) (env : Nat) : Expr → World → Bool
  | .assign _ (.access container index) value, w =>
    Outcome.gives (fun p => p.2.isIn ref) (placed ev env container index value w)
  | _, _ => false

-- Evaluation that stores nothing in a dictionary. It stops where an assignment would.
def sparing (ref : Nat) : Nat → Evaluators
  | 0 => evaluators 0
  | n + 1 =>
    { expr := fun env e =>
        Exec.atLine e.line (Contract.checked (fun w _ => !storesIn ref (sparing ref n) env e w)
          (expr (sparing ref n) env e))
      stmt := fun env s => stmt (sparing ref n) n env s
      call := fun env f args => call (sparing ref n) env f args
      body := fun scope f => block (sparing ref n) scope f.body }

theorem storesIn_of_isStore {e : Expr} (h : e.isStore = false) (ref : Nat) (ev : Evaluators)
    (env : Nat) (w : World) : storesIn ref ev env e w = false := by
  unfold storesIn
  split
  · cases h
  · rfl

end Eval

theorem Contract.checked_true {α : Type} {condition : World → Outcome α → Bool} {x : Exec α}
    (h : ∀ w r, condition w r = true) : checked condition x = x :=
  funext fun w => checked_of_condition rfl (h w (x w))

namespace keeping

open Simulation Tracks

variable {view : Console → Console} {inv spent : World → Prop} {α β : Type} {x y : Exec α}
  {f g : α → Exec β}

-- What follows a computation that is checked knows what the computation does not give.
theorem checked_bind (K : Kept view True inv spent) (bad : α → Bool)
    {condition : World → Outcome β → Bool}
    (hcondition : ∀ w r, condition w r = !Outcome.gives bad (x w))
    (hx : (keeping view True inv spent).Tracks x y)
    (hf : ∀ a, bad a = false → (keeping view True inv spent).Tracks (f a) (g a)) :
    (keeping view True inv spent).Tracks (Contract.checked condition (x >>= f)) (y >>= g) := by
  -- The same computation, which runs out of fuel by itself where it is given something bad.
  have hguarded : (keeping view True inv spent).Tracks
      (x >>= fun a => if bad a then Exec.outOfFuel else f a) (y >>= g) := by
    apply hx.bind (lawful K)
    intro a
    cases hbad : bad a with
    | true => exact of_spent (lawful K) trivial
    | false => exact hf a hbad
  have hsame : ∀ w, Outcome.gives bad (x w) = false →
      Contract.checked condition (x >>= f) w =
        (x >>= fun a => if bad a then Exec.outOfFuel else f a) w := by
    intro w hgives
    rw [Contract.checked_of_condition rfl (by rw [hcondition, hgives]; rfl), Exec.bind_apply,
      Exec.bind_apply]
    cases hcase : x w with
    | ok a t =>
      have hgood : bad a = false := by
        rw [hcase] at hgives
        exact hgives
      simp only [hgood, Bool.false_eq_true, if_false]
    | error s t => rfl
  have hspared : ∀ w, Outcome.gives bad (x w) = true →
      Contract.checked condition (x >>= f) w =
        .error .outOfFuel { w with frames := ⟨#[]⟩ } := by
    intro w hgives
    exact if_neg (by rw [hcondition, hgives]; exact Bool.false_ne_true)
  constructor
  · intro w a t hw h
    cases hgives : Outcome.gives bad (x w) with
    | true =>
      rw [hspared w hgives] at h
      cases h
    | false => exact hguarded.ok hw (hsame w hgives ▸ h)
  · intro w s t hw h
    cases hgives : Outcome.gives bad (x w) with
    | true =>
      rw [hspared w hgives] at h
      cases h
      exact ⟨.inl ⟨rfl, K.released (K.spends trivial hw) _⟩, .inl ⟨rfl, trivial⟩⟩
    | false => exact hguarded.error hw (hsame w hgives ▸ h)

end keeping

namespace Heap

theorem getElem?_dicts_put {h : Heap} {ref : Nat} {slot : Slot} (hslot : slot.isIn ref = false)
    (v : Value) :
    (h.put v slot).dicts[ref]? = h.dicts[ref]? := by
  cases slot with
  | item => rfl
  | entry r k =>
    have hne : r ≠ ref := by simpa [Slot.isIn] using hslot
    simp [put, Array.getElem?_modify, hne]

end Heap

-- Worlds in which a dictionary holds what some stores have left.
def untouched (ref : Nat) (stores : List (String × Value)) : Simulation :=
  keeping id True (fun w => w.heap.Holds ref stores) fun w => w.heap.Holds ref stores

namespace untouched

open Simulation Tracks

variable {ref : Nat} {stores : List (String × Value)}

theorem kept (ref : Nat) (stores : List (String × Value)) :
    Kept id True (fun w => w.heap.Holds ref stores) fun w => w.heap.Holds ref stores where
  writes _ _ := rfl
  reads _ := rfl
  frames h _ := h
  write h _ := h
  read h := h
  asks h _ := h
  functions h _ := h
  heap h _ _ _ _ hdicts := h.congr (hdicts ref h.placed)
  listens h _ := h
  closes {w r} h _ := h.congr (by rw [w.heap.dicts_leave r])
  client h _ := h.congr rfl
  server h _ := h.congr rfl
  spends _ _ h := h
  released h _ := h

theorem lawful : (untouched ref stores).Lawful :=
  keeping.lawful (kept ref stores)

theorem send {ev ev' : Evaluators} (T : (untouched ref stores).Tied ev ev') (args : List Value) :
    (untouched ref stores).Tracks (Eval.send ev args) (Eval.send ev' args) :=
  keeping.send (kept ref stores)
    (keeping.request (kept ref stores) (fun h _ heq => h.congr (by rw [heq]))
      (fun h _ heq => h.congr (by rw [heq])) T) args

theorem placed {ev ev' : Evaluators} (T : (untouched ref stores).Tied ev ev') (env : Nat)
    (container index value : Expr) :
    (untouched ref stores).Tracks (Eval.placed ev env container index value)
      (Eval.placed ev' env container index value) := by
  apply (T.expr env value).bind lawful
  intro v
  apply (T.expr env container).bind lawful
  intro c
  apply (T.expr env index).bind lawful
  intro i
  exact (Tracks.atLine lawful _ (of_reading lawful _)).bind lawful fun _ => of_pure _

-- An assignment to an element that is not in the dictionary.
theorem store {ev ev' : Evaluators} (T : (untouched ref stores).Tied ev ev') (env : Nat)
    (eq : Token) (container index value : Expr) :
    (untouched ref stores).Tracks
      (Contract.checked
        (fun w _ => !Eval.storesIn ref ev env (.assign eq (.access container index) value) w)
        (Eval.expr ev env (.assign eq (.access container index) value)))
      (Eval.expr ev' env (.assign eq (.access container index) value)) := by
  rw [Eval.expr_assign_access, Eval.expr_assign_access]
  refine keeping.checked_bind (kept ref stores) (fun p => p.2.isIn ref) (fun _ _ => rfl)
    (placed T env container index value) fun p hp => ?_
  refine Tracks.bind lawful (of_modify (fun _ => rfl) fun w hw => ?_) fun _ => of_pure _
  exact hw.congr (Heap.getElem?_dicts_put hp p.1)

theorem expr {ev ev' : Evaluators} (T : (untouched ref stores).Tied ev ev') (env : Nat)
    (e : Expr) :
    (untouched ref stores).Tracks
      (Contract.checked (fun w _ => !Eval.storesIn ref ev env e w) (Eval.expr ev env e))
      (Eval.expr ev' env e) := by
  cases hstore : e.isStore with
  | false =>
    rw [Contract.checked_true fun w _ => by rw [Eval.storesIn_of_isStore hstore]; rfl]
    exact Simulation.expr lawful T (send T) env e fun h => absurd (hstore ▸ h) Bool.false_ne_true
  | true =>
    unfold Expr.isStore at hstore
    split at hstore
    · exact store T env _ _ _ _
    · cases hstore

-- Evaluation that spares the dictionary leaves it alone, and does the same as long as it does
-- not stop.
theorem sparing_tied (ref : Nat) (stores : List (String × Value)) (n : Nat) :
    (untouched ref stores).Tied (Eval.sparing ref n) (evaluators n) := by
  induction n with
  | zero => exact tied_zero lawful (.inl rfl)
  | succ n T =>
    rw [Eval.sparing, evaluators_succ]
    exact
      { expr := fun env e => Tracks.atLine lawful e.line (expr T env e)
        stmt := fun env _ hs =>
          Simulation.stmt lawful T (keeping.parallel (kept ref stores) T) env hs (.inl rfl)
        call := fun env _ hf args => Simulation.call lawful T env hf args
        body := fun scope _ hf => Simulation.block lawful T scope hf }

-- A computation that ends as it does when it spares the dictionary.
theorem holds {α : Type} {x y : Exec α} (h : (untouched ref stores).Tracks x y) {w : World}
    (hsame : x w = y w) (hw : w.heap.Holds ref stores) :
    (Outcome.world (y w)).heap.Holds ref stores := by
  rw [← hsame]
  cases hcase : x w with
  | ok a t => exact (h.ok hw hcase).1
  | error s t => exact (h.error hw hcase).1.elim And.right id

end untouched

end Parlance
