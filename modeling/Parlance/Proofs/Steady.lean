import Parlance.Proofs.Simulation.Keeping

namespace Parlance

-- A console after a text has been written to it.
def Console.Extends (c : Console) (text : String) : Prop :=
  ∃ more, c.output = text ++ more

theorem Console.Extends.write {c : Console} {text : String} (h : c.Extends text) (more : String) :
    (c.write more).Extends text := by
  obtain ⟨before, hbefore⟩ := h
  refine ⟨before ++ more, ?_⟩
  rw [Console.write, hbefore, String.append_assoc]

-- What was written stays written.
def steady (text : String) : Simulation :=
  keeping id True (fun w => w.console.Extends text) fun w => w.console.Extends text

namespace steady

variable {text : String} {ev ev' : Evaluators}

theorem kept (text : String) :
    Kept id True (fun w => w.console.Extends text) fun w => w.console.Extends text where
  writes _ _ := rfl
  reads _ := rfl
  frames h _ := h
  write h more := h.write more
  read h := h
  asks h _ := h
  functions h _ := h
  heap h _ _ _ _ _ := h
  listens h _ := h
  closes h _ := h
  client h _ := h
  server h _ := h
  spends _ _ h := h
  released h _ := h

theorem lawful : (steady text).Lawful :=
  keeping.lawful (kept text)

theorem request (T : (steady text).Tied ev ev') (ref : Nat) (message : String) :
    (steady text).Tracks (Eval.request ev ref message) (Eval.request ev' ref message) :=
  keeping.request (kept text) (fun h _ _ => h) (fun h _ _ => h) T ref message

theorem evaluators_tied (text : String) {n m : Nat} (h : n ≤ m) :
    (steady text).Tied (evaluators n) (evaluators m) :=
  keeping.evaluators_tied (kept text) (fun hw _ _ => hw) request (.inr ⟨trivial, h⟩)

end steady

-- More fuel changes no answer.
theorem runStatements_of_isOver {n m : Nat} (h : n ≤ m) {p : Program} {w : World}
    (hover : Outcome.isOver (runStatements n p w) = true) :
    runStatements m p w = runStatements n p w := by
  have htracks := Simulation.run steady.lawful (steady.evaluators_tied w.console.output h) (p := p)
    fun _ _ => trivial
  have hw : (steady w.console.output).inv w := ⟨"", by simp⟩
  cases hcase : runStatements n p w with
  | ok a t => exact (htracks.ok hw hcase).2
  | error s t =>
    refine (htracks.error hw hcase).2.resolve_left fun hs => ?_
    rw [hcase, hs.1] at hover
    cases hover

-- Workers write behind what has been written before them, and go on when one of them fails.
theorem together_extends (fuel env : Nat) (es : List Expr) (w : World) :
    ∃ more, Outcome.output (Eval.together (evaluators fuel) env es w) =
      w.console.output ++ more := by
  have htied := steady.evaluators_tied w.console.output (Nat.le_refl fuel)
  have htracks := keeping.together (steady.kept w.console.output) htied env es
  have hw : (steady w.console.output).inv w := ⟨"", by simp⟩
  cases hcase : Eval.together (evaluators fuel) env es w with
  | ok a t => exact (htracks.ok hw hcase).1
  | error s t => exact (htracks.error hw hcase).1.elim And.right id

end Parlance
