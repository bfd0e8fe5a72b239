namespace Parlance.Integer

-- The integers of a program are those of 64 bits. Operations on them are exact or have no
-- result.
def least : Int := -9223372036854775808

def greatest : Int := 9223372036854775807

def ofInt? (n : Int) : Option Int64 :=
  if least ≤ n ∧ n ≤ greatest then some (Int64.ofInt n) else none

def add? (a b : Int64) : Option Int64 :=
  ofInt? (a.toInt + b.toInt)

def sub? (a b : Int64) : Option Int64 :=
  ofInt? (a.toInt - b.toInt)

def mul? (a b : Int64) : Option Int64 :=
  ofInt? (a.toInt * b.toInt)

def neg? (a : Int64) : Option Int64 :=
  ofInt? (-a.toInt)

-- The double next to an integer, the even one of two equally near.
def toFloat (n : Int64) : Float :=
  .ofModel (.ofInt64 n)

-- The remainder of a division that rounds towards zero. It has no result where the quotient
-- has none.
def rem? (a b : Int64) : Option Int64 :=
  if a.toInt = least ∧ b.toInt = -1 then none else some (a % b)

-- The remainder of a division that rounds down, so that it has the sign of the divisor.
def mod? (a b : Int64) : Option Int64 :=
  (rem? a b).map fun r => if r != 0 && decide (r < 0) != decide (b < 0) then r + b else r

-- A power. The powers of -1, 0 and 1 depend on the parity of the exponent only, and no
-- other number has a 64th power.
def pow? (base : Int64) (exponent : Nat) : Option Int64 :=
  let b := base.toInt
  if b.natAbs ≤ 1 then
    ofInt? (if exponent = 0 then 1 else b.pow (2 - exponent % 2))
  else if exponent < 64 then
    ofInt? (b.pow exponent)
  else
    none

theorem toInt_of_ofInt? {n : Int} {k : Int64} (h : ofInt? n = some k) : k.toInt = n := by
  unfold ofInt? at h
  split at h
  · next hr =>
    obtain ⟨hlo, hhi⟩ := hr
    cases h
    unfold least at hlo
    unfold greatest at hhi
    exact Int64.toInt_ofInt_of_le (by simpa using hlo) (by simp; omega)
  · cases h

end Parlance.Integer
