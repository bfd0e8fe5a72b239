import Parlance.Decimal.Shortest

namespace Parlance.Decimal

def zeros (n : Nat) : List Char :=
  List.replicate n '0'

namespace Digits

-- Positional notation, without a point in a whole number.
def positional (d : Digits) : List Char :=
  if d.point ≤ 0 then
    '0' :: '.' :: zeros (-d.point).toNat ++ d.digits
  else
    let whole := d.point.toNat
    if d.digits.length ≤ whole then
      d.digits ++ zeros (whole - d.digits.length)
    else
      d.digits.take whole ++ '.' :: d.digits.drop whole

def isWhole (d : Digits) : Bool :=
  (d.digits.length : Int) ≤ d.point

-- Notation with an exponent, which always has a sign.
def scientific (d : Digits) : List Char :=
  let exponent := d.point - 1
  let mark := if exponent < 0 then '-' else '+'
  let mantissa := match d.digits with
    | [] => []
    | [c] => [c]
    | c :: rest => c :: '.' :: rest
  mantissa ++ 'e' :: mark :: Nat.toDigits 10 exponent.natAbs

end Digits

def signed (negative : Bool) (text : List Char) : String :=
  String.ofList (if negative then '-' :: text else text)

-- Numbers below this power of ten are shown with a place after the point.
def pointLimit : Int := 16

-- A number as programs print it: positional, with `.0` after a whole number of at most
-- sixteen digits.
def display (x : Float) : String :=
  match Binary.ofFloat x with
  | .nan => "nan"
  | .infinite negative => signed negative "inf".toList
  | .finite negative mantissa exponent =>
    let d := shortest .up mantissa exponent
    let point := if d.isWhole ∧ d.point ≤ pointLimit then ['.', '0'] else []
    signed negative (d.positional ++ point)

-- A number without a place after the point that it does not need.
def bare (x : Float) : String :=
  match Binary.ofFloat x with
  | .nan => "NaN"
  | .infinite negative => signed negative "inf".toList
  | .finite negative mantissa exponent =>
    signed negative (shortest .up mantissa exponent).positional

-- A number in JSON, which has no infinities. Small and large numbers have an exponent,
-- the others a point.
def json (x : Float) : String :=
  match Binary.ofFloat x with
  | .nan => "null"
  | .infinite _ => "null"
  | .finite negative mantissa exponent =>
    let d := shortest .even mantissa exponent
    if d.point ≤ -5 ∨ pointLimit < d.point then
      signed negative d.scientific
    else
      signed negative (d.positional ++ if d.isWhole then ['.', '0'] else [])

end Parlance.Decimal
