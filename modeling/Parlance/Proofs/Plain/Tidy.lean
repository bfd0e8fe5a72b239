import Parlance.Proofs.Plain.Operation
import Parlance.Proofs.Simulation

namespace Parlance

-- A computation that leaves a plain world plain, even where it stops. It gives something with a
-- property, or fails with a plain message.
structure Tidy {α : Type} (x : Exec α) (Q : α → Prop) : Prop where
  ok : ∀ {w a t}, w.Plain → x w = .ok a t → t.Plain ∧ Q a
  error : ∀ {w s t}, w.Plain → x w = .error s t → t.Plain ∧ s.Plain

namespace Tidy

open Exec

variable {α β : Type} {Q : α → Prop} {R : β → Prop} {x : Exec α}

theorem of_pure {a : α} (h : Q a) : Tidy (pure a) Q where
  ok hw hx := by
    cases hx
    exact ⟨hw, h⟩
  error _ hx := by cases hx

theorem of_stop {s : Stop} (h : s.Plain) : Tidy (stop s : Exec α) Q where
  ok _ hx := by cases hx
  error hw hx := by
    cases hx
    exact ⟨hw, h⟩

-- What would come after a failure does not matter.
theorem of_stop_bind {s : Stop} {f : α → Exec β} (h : s.Plain) : Tidy (stop s >>= f) R :=
  of_stop h

theorem of_spent : Tidy (outOfFuel : Exec α) Q :=
  of_stop trivial

theorem bind {f : α → Exec β} (hx : Tidy x Q) (hf : ∀ a, Q a → Tidy (f a) R) :
    Tidy (x >>= f) R where
  ok {w b t} hw h := by
    rw [bind_apply] at h
    cases hcase : x w with
    | ok a u =>
      rw [hcase] at h
      obtain ⟨hu, ha⟩ := hx.ok hw hcase
      exact (hf a ha).ok hu h
    | error s u =>
      rw [hcase] at h
      cases h
  error {w s t} hw h := by
    rw [bind_apply] at h
    cases hcase : x w with
    | ok a u =>
      rw [hcase] at h
      obtain ⟨hu, ha⟩ := hx.ok hw hcase
      exact (hf a ha).error hu h
    | error s u =>
      rw [hcase] at h
      cases h
      exact hx.error hw hcase

-- What follows a look at the world knows that the world is plain.
theorem of_get {f : World → Exec α} (h : ∀ w, w.Plain → Tidy (f w) Q) : Tidy (get >>= f) Q where
  ok hw hx := (h _ hw).ok hw hx
  error hw hx := (h _ hw).error hw hx

theorem of_ask {question : Host → Nat → α} {f : α → Exec β}
    (h : ∀ host turn, Tidy (f (question host turn)) R) : Tidy (ask question >>= f) R where
  ok {w a t} hw hx := by
    have hasked : World.Plain { w with asked := w.asked + 1 } := { hw with }
    exact (h w.options.host w.asked).ok hasked hx
  error {w s t} hw hx := by
    have hasked : World.Plain { w with asked := w.asked + 1 } := { hw with }
    exact (h w.options.host w.asked).error hasked hx

theorem of_modifyGet {f : World → α × World} (h : ∀ w, w.Plain → (f w).2.Plain ∧ Q (f w).1) :
    Tidy (modifyGet f : Exec α) Q where
  ok hw hx := by
    cases hx
    exact h _ hw
  error _ hx := by cases hx

theorem of_modify {f : World → World} (h : ∀ w, w.Plain → (f w).Plain) :
    Tidy (modify f : Exec PUnit) fun _ => True where
  ok hw hx := by
    cases hx
    exact ⟨h _ hw, trivial⟩
  error _ hx := by cases hx

theorem of_reading {f : Heap → Except Stop α} (h : ∀ heap : Heap, heap.Plain → Plainly (f heap) Q) :
    Tidy (reading f) Q where
  ok {w a t} hw hx := by
    cases hf : f w.heap with
    | ok b =>
      simp only [reading, hf] at hx
      cases hx
      exact ⟨hw, (h _ hw.heap).ok hf⟩
    | error s =>
      simp only [reading, hf] at hx
      cases hx
  error {w s t} hw hx := by
    cases hf : f w.heap with
    | ok b =>
      simp only [reading, hf] at hx
      cases hx
    | error e =>
      simp only [reading, hf] at hx
      cases hx
      exact ⟨hw, (h _ hw.heap).error hf⟩

theorem of_require {x : Except Stop α} (h : Plainly x Q) : Tidy (require x) Q :=
  of_reading fun _ _ => h

theorem of_display {v : Value} (hv : v.Plain) : Tidy (display v) Unbroken where
  ok hw hx := by
    cases hx
    exact ⟨hw, hw.heap.display hv⟩
  error _ hx := by cases hx

theorem of_isTrue (v : Value) : Tidy (isTrue v) fun _ => True where
  ok hw hx := by
    cases hx
    exact ⟨hw, trivial⟩
  error _ hx := by cases hx

theorem of_write (text : String) : Tidy (write text) fun _ => True :=
  of_modify fun _ hw => { hw with }

theorem of_readLine : Tidy readLine fun line => ∀ s ∈ line, Unbroken s :=
  of_modifyGet fun _ hw => ⟨{ hw with input := hw.input.next.1 }, hw.input.next.2⟩

theorem of_define (env : Nat) (name : String) {v : Value} (hv : v.Plain) :
    Tidy (define env name v) fun _ => True :=
  of_modify fun _ hw => hw.defined env name hv

theorem of_place {d : Draft} (hd : d.Plain) : Tidy (place d) Value.Plain := by
  cases d with
  | value v => exact of_pure hd
  | list items =>
    refine of_modifyGet fun w hw => ?_
    obtain ⟨hheap, hv⟩ := hw.heap.place hd
    exact ⟨{ hw with heap := hheap }, hv⟩
  | dict entries =>
    refine of_modifyGet fun w hw => ?_
    obtain ⟨hheap, hv⟩ := hw.heap.place hd
    exact ⟨{ hw with heap := hheap }, hv⟩

theorem of_ite {c : Prop} [Decidable c] {y : Exec α} (hx : Tidy x Q) (hy : Tidy y Q) :
    Tidy (if c then x else y) Q := by
  split
  · exact hx
  · exact hy

theorem of_mapM {f : α → Exec β} {as : List α} (h : ∀ a ∈ as, Tidy (f a) R) :
    Tidy (as.mapM f) fun bs => ∀ b ∈ bs, R b := by
  induction as with
  | nil => exact of_pure (by simp)
  | cons a as ih =>
    obtain ⟨ha, has⟩ := List.forall_mem_cons.mp h
    rw [List.mapM_cons]
    exact ha.bind fun b hb => (ih has).bind fun bs hbs => of_pure (by simpa using ⟨hb, hbs⟩)

theorem withFrame {env : Nat} {f : Nat → Exec α} (h : ∀ scope, Tidy (f scope) Q) :
    Tidy (withFrame env f) Q where
  ok {w a t} hw hx := by
    rw [withFrame_eq_closed] at hx
    cases hcase : f w.frames.size (w.opened env) with
    | ok b u =>
      rw [hcase] at hx
      cases hx
      obtain ⟨hu, ha⟩ := (h _).ok (hw.opened env) hcase
      exact ⟨hu.closed _, ha⟩
    | error s u =>
      rw [hcase] at hx
      cases hx
  error {w s t} hw hx := by
    rw [withFrame_eq_closed] at hx
    cases hcase : f w.frames.size (w.opened env) with
    | ok b u =>
      rw [hcase] at hx
      cases hx
    | error s u =>
      rw [hcase] at hx
      cases hx
      obtain ⟨hu, hs⟩ := (h _).error (hw.opened env) hcase
      exact ⟨hu.closed _, hs⟩

theorem atLine (line : Nat) (h : Tidy x Q) : Tidy (atLine line x) Q where
  ok {w a t} hw hx := by
    rw [atLine_eq_orLine] at hx
    cases hcase : x w with
    | ok b u =>
      rw [hcase] at hx
      cases hx
      exact h.ok hw hcase
    | error s u =>
      rw [hcase] at hx
      cases hx
  error {w s t} hw hx := by
    rw [atLine_eq_orLine] at hx
    cases hcase : x w with
    | ok b u =>
      rw [hcase] at hx
      cases hx
    | error s u =>
      rw [hcase] at hx
      cases hx
      obtain ⟨ht, hs⟩ := h.error hw hcase
      cases s <;> exact ⟨ht, hs⟩

-- A failure that is caught is still plain.
theorem attempt (h : Tidy x Q) :
    Tidy (attempt x) fun r =>
      (∀ a, r = .ok a → Q a) ∧ ∀ f, r = .error f → (Stop.fault f).Plain where
  ok {w r t} hw hx := by
    unfold Exec.attempt at hx
    split at hx
    · next hcase =>
      cases hx
      obtain ⟨ht, ha⟩ := h.ok hw hcase
      exact ⟨ht, by simpa using ha, by simp⟩
    · next hcase =>
      cases hx
      obtain ⟨ht, hf⟩ := h.error hw hcase
      exact ⟨ht, by simp, by simpa using hf⟩
    · next hcase =>
      cases hx
      have hcrash : (Stop.fault (.runtime .workerCrashed)).Plain := by
        simp [Stop.Plain, Fault.runtime, Cause.quoted, RuntimeFault.quoted]
      exact ⟨(h.error hw hcase).1, by simp, by simpa using hcrash⟩
    · cases hx
  error {w s t} hw hx := by
    unfold Exec.attempt at hx
    split at hx
    · cases hx
    · cases hx
    · cases hx
    · next hcase =>
      cases hx
      exact ⟨(h.error hw hcase).1, trivial⟩

end Tidy
end Parlance
