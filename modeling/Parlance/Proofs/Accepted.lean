import Parlance.Proofs.Ordinary
import Parlance.Proofs.Syntax
import Parlance.Run

namespace Parlance

theorem compile_eq_ok {source : String} {p : Program} :
    compile source = .ok p ↔ parse source = .ok p ∧ Typing.program p = .ok () := by
  rw [compile, bind_eq_ok]
  constructor
  · rintro ⟨q, hq, h⟩
    cases ht : Typing.program q with
    | ok u =>
      rw [ht] at h
      cases h
      exact ⟨hq, ht⟩
    | error f =>
      rw [ht] at h
      cases h
  · rintro ⟨hp, ht⟩
    refine ⟨p, hp, ?_⟩
    rw [ht]
    rfl

theorem exists_of_isOk {ε α : Type} {x : Except ε α} (h : x.isOk = true) : ∃ a, x = .ok a := by
  cases x with
  | ok a => exact ⟨a, rfl⟩
  | error e => cases h

theorem exists_of_any {ε α : Type} {x : Except ε α} {P : α → Prop} [DecidablePred P]
    (h : x.toOption.any (fun a => decide (P a)) = true) : ∃ a, x = .ok a ∧ P a := by
  cases x with
  | ok a => exact ⟨a, rfl, of_decide_eq_true h⟩
  | error e => cases h

theorem Typing.of_require {ok : Bool} {cause : TypeFault} {line : Nat} {u : Unit}
    (h : require ok cause line = .ok u) : ok = true := by
  cases ok with
  | true => rfl
  | false => cases h

-- The functions that are defined inside a function of a program belong to the program.
theorem Program.mem_parts_of_mem_body {p : Program} {f g : Function}
    (hf : f.definition ∈ Program.parts p) (hg : g.definition ∈ Stmt.partsOf f.body) :
    g.definition ∈ Program.parts p := by
  obtain ⟨s, hs, hf⟩ := Stmt.mem_partsOf.mp hf
  have hparts : g.definition ∈ f.definition.parts :=
    Stmt.mem_parts.mpr (.inr ⟨f.body, List.mem_singleton.mpr rfl, hg⟩)
  exact Stmt.mem_partsOf.mpr ⟨s, hs, Stmt.parts_trans hf hparts⟩

-- A function that some accepted text defines.
def Accepted (f : Function) : Prop :=
  ∃ source p, compile source = .ok p ∧ f.definition ∈ Program.parts p

-- The functions that are defined inside an accepted function are accepted.
theorem Accepted.of_mem_body {f g : Function} (hf : Accepted f)
    (hg : g.definition ∈ Stmt.partsOf f.body) : Accepted g := by
  obtain ⟨source, p, hp, hmem⟩ := hf
  exact ⟨source, p, hp, Program.mem_parts_of_mem_body hmem hg⟩

-- A world in which accepted texts have been run: all functions in it come from such texts.
structure World.AcceptedOnly (w : World) : Prop where
  functions : ∀ name f, w.functions.get? name = some f → Accepted f
  servers : ∀ s ∈ w.heap.servers, Accepted s.handler

end Parlance
