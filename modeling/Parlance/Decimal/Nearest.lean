import Parlance.Decimal.Binary

namespace Parlance.Decimal

-- The whole number next to `num / den`, the even one of two equally near.
def roundQuotient (num den : Nat) : Nat :=
  let q := num / den
  let twice := 2 * (num % den)
  if den < twice ∨ (den = twice ∧ q % 2 = 1) then q + 1 else q

-- The exponent of the highest power of two that `num / den` reaches.
def binaryMagnitude (num den : Nat) : Int :=
  let estimate : Int := (num.log2 : Int) - den.log2
  if den * Nat.pow 2 estimate.toNat ≤ num * Nat.pow 2 (-estimate).toNat then estimate
  else estimate - 1

-- The exponent of the last place of the double next to `num / den`.
def lastPlace (num den : Nat) : Int :=
  max (binaryMagnitude num den - Binary.fractionBits) Binary.leastExponent

-- The bits of infinity, which are also those behind the greatest double.
def infinityBits : Nat :=
  2047 * Nat.pow 2 Binary.fractionBits

-- The bits of the double next to `num / den`, the even one of two equally near. A mantissa
-- that is rounded up to the next power of two carries into the exponent, and the exponent
-- of the greatest double into infinity.
def nearestBits (num den : Nat) : Nat :=
  let place := lastPlace num den
  let mantissa := roundQuotient (num * Nat.pow 2 (-place).toNat) (den * Nat.pow 2 place.toNat)
  let field := (place - Binary.leastExponent).toNat
  min (field * Nat.pow 2 Binary.fractionBits + mantissa) infinityBits

-- The double next to a positive fraction.
def nearestFloat (num den : Nat) : Float :=
  Float.ofBits (UInt64.ofNat (nearestBits num den))

end Parlance.Decimal
