import Parlance.Fault
import Parlance.Integer

namespace Parlance

-- The values of a running program. Collections and channels are places in the heap, so
-- that two values can be the same collection.
inductive Value where
  | int (n : Int64)
  | float (x : Float)
  | str (s : String)
  | bool (b : Bool)
  | void
  | list (ref : Nat)
  | dict (ref : Nat)
  | client (ref : Nat)
  | server (ref : Nat)
  deriving Inhabited

-- Ends a computation with a failure that no line has been found for yet.
def refuse {α : Type} (cause : RuntimeFault) : Except Stop α :=
  .error (.fault (.runtime cause))

namespace Value

def ty : Value → Ty
  | int _ => .number
  | float _ => .number
  | str _ => .string
  | bool _ => .bool
  | void => .void
  | list _ => .list
  | dict _ => .dict
  | client _ => .client
  | server _ => .server

-- A number as a double.
def toFloat? : Value → Option Float
  | int n => some (Integer.toFloat n)
  | float x => some x
  | _ => none

def isNumber : Value → Bool
  | int _ => true
  | float _ => true
  | _ => false

def isText : Value → Bool
  | str _ => true
  | _ => false

-- Whether a double is an integer of 64 bits. The least of them is left out.
def isIntegral (x : Float) : Bool :=
  x.floor == x && x.abs < 9223372036854775808.0

-- An integer, or a double that stands for one.
def asInt (what : String) : Value → Except Stop Int64
  | int n => .ok n
  | float x => if isIntegral x then .ok x.toInt64 else refuse (.notInteger what .number)
  | v => refuse (.notInteger what v.ty)

def asText (what : String) : Value → Except Stop String
  | str s => .ok s
  | v => refuse (.notText what v.ty)

def asFloat (what : String) (v : Value) : Except Stop Float :=
  match v.toFloat? with
  | some x => .ok x
  | none => refuse (.notNumber what v.ty)

end Value

end Parlance
