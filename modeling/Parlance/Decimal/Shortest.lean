import Parlance.Decimal.Binary

namespace Parlance.Decimal

-- The decimal `0.d₁d₂…dₙ · 10^point`.
structure Digits where
  digits : List Char
  point : Int
  deriving DecidableEq

-- Which of two equally near decimals is taken.
inductive Tie where
  | up
  | even
  deriving DecidableEq

-- The doubles around `mantissa · 2^exponent` end halfway to its neighbours. In quarters
-- of the last place the value is `4 * mantissa`, the upper end two quarters above it, and
-- the lower end two below, or one where the binade below is finer.
structure Interval where
  low : Nat
  value : Nat
  high : Nat
  exponent : Int
  closed : Bool

def Interval.around (mantissa : Nat) (exponent : Int) : Interval :=
  let finer := mantissa = Nat.pow 2 Binary.fractionBits ∧ Binary.leastExponent < exponent
  { low := 4 * mantissa - (if finer then 1 else 2)
    value := 4 * mantissa
    high := 4 * mantissa + 2
    exponent := exponent - 2
    closed := mantissa % 2 = 0 }

namespace Interval

-- A quarter and a unit of the decimal grid `10^k`, as multiples of a common measure.
def measures (i : Interval) (k : Int) : Nat × Nat :=
  (Nat.pow 2 i.exponent.toNat * Nat.pow 10 (-k).toNat,
    Nat.pow 10 k.toNat * Nat.pow 2 (-i.exponent).toNat)

-- Whether the point `d · 10^k` reads back as the value.
def contains (i : Interval) (k : Int) (d : Nat) : Bool :=
  let (quarter, unit) := i.measures k
  if i.closed then
    i.low * quarter ≤ d * unit && d * unit ≤ i.high * quarter
  else
    i.low * quarter < d * unit && d * unit < i.high * quarter

-- The nearer of the points `d` and `d + 1` that are `below` and `above` away.
def nearer (tie : Tie) (d below above : Nat) : Nat :=
  if below < above then d
  else if above < below then d + 1
  else
    match tie with
    | .up => d + 1
    | .even => if d % 2 = 0 then d else d + 1

-- The point of a grid next to the value that reads back as it, the nearer one of two.
def nearest? (tie : Tie) (i : Interval) (k : Int) : Option Nat :=
  let (quarter, unit) := i.measures k
  let d := i.value * quarter / unit
  match i.contains k d, i.contains k (d + 1) with
  | true, true =>
    some (nearer tie d (i.value * quarter - d * unit) ((d + 1) * unit - i.value * quarter))
  | true, false => some d
  | false, true => some (d + 1)
  | false, false => none

-- Whether the value is less than `10^k`.
def below (i : Interval) (k : Int) : Bool :=
  let (quarter, unit) := i.measures k
  i.value * quarter < unit

-- The least `k` with the value less than `10^k`, found near an estimate from its length
-- in bits.
def magnitude (i : Interval) : Int :=
  let bits : Int := i.value.log2 + i.exponent
  let estimate := bits * 30103 / 100000
  ([estimate - 1, estimate, estimate + 1].find? i.below).getD (estimate + 2)

end Interval

-- The decimal digits of a number without the zeros at their end.
def significant (n : Nat) : List Char :=
  ((Nat.toDigits 10 n).reverse.dropWhile (· == '0')).reverse

-- The digits of `d · 10^k`.
def Digits.ofGrid (d : Nat) (k : Int) : Digits :=
  ⟨significant d, k + (Nat.toDigits 10 d).length⟩

-- Seventeen digits tell all doubles apart.
def mostDigits : Nat := 17

-- The fewest digits that read back as `mantissa · 2^exponent`, and the nearest of those.
def shortest (tie : Tie) (mantissa : Nat) (exponent : Int) : Digits :=
  if mantissa = 0 then ⟨['0'], 1⟩
  else
    let i := Interval.around mantissa exponent
    let top := i.magnitude
    let found := (List.range mostDigits).findSome? fun n =>
      let k := top - (n + 1 : Nat)
      (Interval.nearest? tie i k).map fun d => Digits.ofGrid d k
    found.getD ⟨['0'], 1⟩

end Parlance.Decimal
