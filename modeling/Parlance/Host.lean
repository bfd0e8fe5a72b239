import Parlance.JsonValue
import Parlance.Network

namespace Parlance

-- Random numbers, which depend on how often a program has asked for anything: doubles from zero
-- up to one, and integers between two bounds.
structure Draws where
  fraction : Nat → { x : Float // 0.0 ≤ x ∧ x < 1.0 }
  between : Nat → (low high : Int64) → low ≤ high → { n : Int64 // low ≤ n ∧ n ≤ high }

-- What programs are given by the machine that they run on. Nothing else is known of it.
structure Host where
  draws : Draws
  network : Network
  printJson : JsonValue → String

end Parlance
