import Parlance.Host.Local
import Parlance.Proofs.Anchored
import Parlance.Proofs.Plain.Eval

namespace Parlance

namespace Lexer

end Lexer

theorem World.plain_fresh (input : String) (options : Options) :
    (World.fresh (.captured input) options).Plain where
  heap := Heap.plain_empty
  frames env name v h := by
    have hnone : ∀ i, (Frames.root.bindings i).get? name = none := by
      intro i
      cases i <;> rfl
    rw [World.fresh, hnone] at h
    cases h
  functions name f h := by cases h
  input := Text.lines_unbroken input

-- A text with a line break behind its last line, if there is none yet.
def Text.ended (s : String) : String :=
  if s.toList.getLast?.all (· == '\n') then s else s ++ "\n"

-- The answer is no number, and it stands behind the question.
def asking : String :=
  "var s: string = input(\"a? \") print(to_number(s))"

end Parlance
