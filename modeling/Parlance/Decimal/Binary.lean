namespace Parlance.Decimal

-- What a double stands for: a mantissa times a power of two with a sign, or no number.
inductive Binary where
  | finite (negative : Bool) (mantissa : Nat) (exponent : Int)
  | infinite (negative : Bool)
  | nan
  deriving DecidableEq

namespace Binary

def fractionBits : Nat := 52

-- The exponent of the least double above zero.
def leastExponent : Int := -1074

def ofBits (bits : Nat) : Binary :=
  let negative := decide (Nat.pow 2 63 ≤ bits)
  let field : Nat := bits / Nat.pow 2 fractionBits % Nat.pow 2 11
  let fraction : Nat := bits % Nat.pow 2 fractionBits
  if field = 2047 then
    if fraction = 0 then infinite negative else nan
  else if field = 0 then
    finite negative fraction leastExponent
  else
    finite negative (fraction + Nat.pow 2 fractionBits) (leastExponent + field - 1)

def ofFloat (x : Float) : Binary :=
  ofBits x.toBits.toNat

end Binary

-- The remainder of a division that rounds toward zero. It is exact, and has the sign of
-- the dividend.
def remainder (a b : Float) : Float :=
  match Binary.ofFloat a, Binary.ofFloat b with
  | .finite negative m p, .finite _ n q =>
    if n = 0 then 0.0 / 0.0
    else
      let e := min p q
      let r := (m * Nat.pow 2 (p - e).toNat) % (n * Nat.pow 2 (q - e).toNat)
      let x := (Float.ofNat r).scaleB e
      if negative then -x else x
  | .finite _ _ _, .infinite _ => a
  | _, _ => 0.0 / 0.0

end Parlance.Decimal
