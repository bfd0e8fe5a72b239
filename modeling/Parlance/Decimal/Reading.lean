import Parlance.Decimal.Nearest
import Parlance.Integer

namespace Parlance.Decimal

-- A sign in front of a number, and what follows it.
def splitSign : List Char → Bool × List Char
  | '-' :: cs => (true, cs)
  | '+' :: cs => (false, cs)
  | cs => (false, cs)

-- The number that digits stand for.
def ofDigits (cs : List Char) : Nat :=
  cs.foldl (fun n c => 10 * n + (c.toNat - '0'.toNat)) 0

-- An integer: a sign, if any, and at least one digit.
def int? (s : String) : Option Int64 :=
  let (negative, cs) := splitSign s.toList
  if !cs.isEmpty && cs.all Char.isDigit then
    Integer.ofInt? (if negative then -(ofDigits cs : Int) else ofDigits cs)
  else
    none

-- The number that the digits of an exponent stand for. Digits behind a number that is
-- large already do not count.
def exponentOfDigits (cs : List Char) : Nat :=
  cs.foldl (fun n c => if n < 65536 then 10 * n + (c.toNat - '0'.toNat) else n) 0

-- An exponent, if any, up to the end of the text.
def exponent? : List Char → Option Int
  | [] => some 0
  | c :: cs =>
    if c = 'e' ∨ c = 'E' then
      let (negative, digits) := splitSign cs
      if !digits.isEmpty && digits.all Char.isDigit then
        some (if negative then -(exponentOfDigits digits : Int) else exponentOfDigits digits)
      else
        none
    else
      none

-- The double next to `mantissa · 10^exponent`. Powers far outside the range of doubles are
-- not computed.
def scaled (mantissa : Nat) (exponent : Int) : Float :=
  let size : Int := (Nat.toDigits 10 mantissa).length + exponent
  if mantissa = 0 ∨ size < -400 then 0.0
  else if 400 < size then 1.0 / 0.0
  else nearestFloat (mantissa * Nat.pow 10 exponent.toNat) (Nat.pow 10 (-exponent).toNat)

-- Digits with or without a point, at least one of them, and perhaps an exponent.
def decimal? (cs : List Char) : Option Float := do
  let whole := cs.takeWhile Char.isDigit
  let rest := cs.dropWhile Char.isDigit
  let (fraction, rest) := match rest with
    | '.' :: more => (more.takeWhile Char.isDigit, more.dropWhile Char.isDigit)
    | _ => ([], rest)
  if whole.isEmpty && fraction.isEmpty then
    none
  else
    let e ← exponent? rest
    return scaled (ofDigits (whole ++ fraction)) (e - fraction.length)

-- The names of what is not a finite number, in capitals or not.
def special? (cs : List Char) : Option Float :=
  match String.ofList (cs.map Char.toLower) with
  | "inf" | "infinity" => some (1.0 / 0.0)
  | "nan" => some (0.0 / 0.0)
  | _ => none

-- A double in decimal notation.
def float? (s : String) : Option Float :=
  let (negative, cs) := splitSign s.toList
  ((special? cs).or (decimal? cs)).map fun x => if negative then -x else x

end Parlance.Decimal
