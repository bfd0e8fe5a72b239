import Parlance.Builtin
import Parlance.Heap.Operator
import Parlance.Host

namespace Parlance.Builtin

-- The exponents for which powers of integers are integers.
def exponentLimit : Int := 4294967296

def power (base exponent : Value) : Except Stop Value := do
  let asFloats : Except Stop Value := do
    let x ← base.asFloat "`pow` base"
    let y ← exponent.asFloat "`pow` exponent"
    return .float (x.pow y)
  match base, exponent with
  | .int b, .int e =>
    if 0 ≤ e.toInt ∧ e.toInt < exponentLimit then exactly (Integer.pow? b e.toInt.toNat)
    else asFloats
  | _, _ => asFloats

def root (v : Value) : Except Stop Value := do
  let x ← v.asFloat "`sqrt` operand"
  if x < 0.0 then refuse .negativeRoot
  return .float x.sqrt

def exponential (v : Value) : Except Stop Value := do
  return .float (← v.asFloat "`exp` operand").exp

-- Whether a term of an arithmetic progression comes before its end.
def Before (stop step current : Int64) : Prop :=
  0 < step ∧ current < stop ∨ step < 0 ∧ stop < current

instance (stop step current : Int64) : Decidable (Before stop step current) :=
  inferInstanceAs (Decidable (_ ∨ _))

-- How far a term is from the end.
def distance (stop step current : Int64) : Nat :=
  (if 0 < step then stop.toInt - current.toInt else current.toInt - stop.toInt).toNat

theorem distance_next_lt {stop step current next : Int64} (h : Before stop step current)
    (hnext : Integer.add? current step = some next) :
    distance stop step next < distance stop step current := by
  have hsum : next.toInt = current.toInt + step.toInt := Integer.toInt_of_ofInt? hnext
  unfold distance
  rcases h with ⟨hstep, hbefore⟩ | ⟨hstep, hbefore⟩
  · rw [if_pos hstep, if_pos hstep]
    rw [Int64.lt_iff_toInt_lt] at hstep hbefore
    simp only [Int64.toInt_zero] at hstep
    omega
  · rw [Int64.lt_iff_toInt_lt] at hstep hbefore
    simp only [Int64.toInt_zero] at hstep
    have hdown : ¬ 0 < step := by
      rw [Int64.lt_iff_toInt_lt, Int64.toInt_zero]
      omega
    rw [if_neg hdown, if_neg hdown]
    omega

-- Adds the terms from one on to those before it, up to the end, which does not belong to the
-- progression. It also ends where the next term would not be an integer of 64 bits.
def termsFrom (stop step current : Int64) (terms : Array Value) : Array Value :=
  if _ : Before stop step current then
    match _ : Integer.add? current step with
    | some next => termsFrom stop step next (terms.push (.int current))
    | none => terms.push (.int current)
  else
    terms
termination_by distance stop step current
decreasing_by exact distance_next_lt ‹_› ‹_›

-- An arithmetic progression.
def progression (start stop step : Int64) : Array Value :=
  termsFrom stop step start #[]

def bound (v : Value) : Except Stop Int64 :=
  v.asInt "`range` bound"

-- The terms from a start, zero if it is left out, in steps of a width, one if it is left out.
def terms (args : List Value) : Except Stop (Array Value) := do
  match args with
  | [stop] => return progression 0 (← bound stop) 1
  | [start, stop] =>
    let start ← bound start
    return progression start (← bound stop) 1
  | [start, stop, step] =>
    let start ← bound start
    let stop ← bound stop
    let step ← bound step
    if step = 0 then refuse .zeroStep
    return progression start stop step
  | args => refuse (.arity range.name 1 3 args.length)

-- A random number for the arguments of a call.
def draw (draws : Draws) (turn : Nat) : List Value → Except Stop Value
  | [] => .ok (.float (draws.fraction turn).val)
  | [low, high] => do
    let low ← low.asInt "`random` lower bound"
    let high ← high.asInt "`random` upper bound"
    if h : low ≤ high then return .int (draws.between turn low high h).val
    else refuse (.emptyRandomRange low.toInt high.toInt)
  | args => refuse (.randomArity args.length)

-- The durations that a program can ask for end here, in seconds.
def sleepLimit : Float := 18446744073709551616.0

-- Whether a program can wait for some seconds.
def canWait (seconds : Float) : Bool :=
  0.0 ≤ seconds && seconds < sleepLimit

end Parlance.Builtin
