import Parlance.Decimal.Binary
import Parlance.Heap.Equality
import Parlance.Integer

namespace Parlance

-- The order of two doubles, if they have one.
def compareFloat? (a b : Float) : Option Ordering :=
  if a < b then some .lt
  else if a == b then some .eq
  else if b < a then some .gt
  else none

-- The order of two values: integers, texts, or numbers as doubles.
def Value.order (a b : Value) : Except Stop Ordering :=
  match a, b with
  | .int a, .int b => .ok (compare a.toInt b.toInt)
  | .str a, .str b => .ok (compare a b)
  | a, b =>
    match a.toFloat?, b.toFloat? with
    | some x, some y =>
      match compareFloat? x y with
      | some o => .ok o
      | none => refuse .unorderedNumber
    | _, _ => refuse (.notOrdered a.ty b.ty)

def Heap.relational (h : Heap) (op : TokenKind) (a b : Value) : Except Stop Value := do
  match op with
  | .equalEqual => return .bool (← h.equal a b)
  | .notEqual => return .bool (!(← h.equal a b))
  | .less => return .bool ((← a.order b) == .lt)
  | .lessEqual => return .bool ((← a.order b) != .gt)
  | .greater => return .bool ((← a.order b) == .gt)
  | .greaterEqual => return .bool ((← a.order b) != .lt)
  | op => refuse (.unknownRelational op)

def exactly (n : Option Int64) : Except Stop Value :=
  match n with
  | some n => .ok (.int n)
  | none => refuse .overflow

-- Arithmetic of integers. Division gives a double.
def intArithmetic (op : TokenKind) (a b : Int64) : Except Stop Value :=
  match op with
  | .plus => exactly (Integer.add? a b)
  | .minus => exactly (Integer.sub? a b)
  | .star => exactly (Integer.mul? a b)
  | .slash =>
    if b = 0 then refuse .divisionByZero
    else .ok (.float (Integer.toFloat a / Integer.toFloat b))
  | .percent => if b = 0 then refuse .moduloByZero else exactly (Integer.mod? a b)
  | op => refuse (.unknownArithmetic op)

-- The remainder of a division of doubles that rounds down.
def floatModulo (a b : Float) : Float :=
  let r := Decimal.remainder a b
  if r != 0.0 && decide (r < 0.0) != decide (b < 0.0) then r + b else r

def floatArithmetic (op : TokenKind) (a b : Float) : Except Stop Value :=
  match op with
  | .plus => .ok (.float (a + b))
  | .minus => .ok (.float (a - b))
  | .star => .ok (.float (a * b))
  | .slash => if b == 0.0 then refuse .divisionByZero else .ok (.float (a / b))
  | .percent => if b == 0.0 then refuse .moduloByZero else .ok (.float (floatModulo a b))
  | op => refuse (.unknownArithmetic op)

-- The bytes that can be addressed.
def addressable : Nat := 9223372036854775807

-- The bytes that a value takes in a list.
def valueBytes : Nat := 24

-- A sequence that would not fit into memory at all is not built.
def repeatText (s : String) (times : Nat) : Except Stop Draft :=
  if addressable < s.utf8ByteSize * times then .error .crash
  else if s.isEmpty then .ok (.value (.str ""))
  else .ok (.value (.str (String.join (List.replicate times s))))

def repeatItems (items : Array Value) (times : Nat) : Except Stop Draft :=
  if addressable < items.size * valueBytes * times then .error .crash
  else if items.isEmpty then .ok (.list #[])
  else .ok (.list ((List.replicate times items).foldl (· ++ ·) #[]))

def operatorSymbol : TokenKind → String
  | .plus => "+"
  | .minus => "-"
  | .star => "*"
  | .slash => "/"
  | .percent => "%"
  | _ => "?"

-- Arithmetic: on numbers, on texts and lists that are joined, and on texts and lists that
-- are repeated.
def Heap.arithmetic (h : Heap) (op : TokenKind) (a b : Value) : Except Stop Draft :=
  match a, b with
  | .int a, .int b => .value <$> intArithmetic op a b
  | .int a, .float b => .value <$> floatArithmetic op (Integer.toFloat a) b
  | .float a, .int b => .value <$> floatArithmetic op a (Integer.toFloat b)
  | .float a, .float b => .value <$> floatArithmetic op a b
  | a, b =>
    match op, a, b with
    | .plus, .str a, .str b => .ok (.value (.str (a ++ b)))
    | .plus, .list a, .list b => .ok (.list (h.list a ++ h.list b))
    | .star, .str s, .int n => repeatText s n.toInt.toNat
    | .star, .list ref, .int n => repeatItems (h.list ref) n.toInt.toNat
    | .star, .int n, .str s => repeatText s n.toInt.toNat
    | .star, .int n, .list ref => repeatItems (h.list ref) n.toInt.toNat
    | op, a, b => refuse (.operands a.ty b.ty (operatorSymbol op))

def Value.negate : Value → Except Stop Value
  | .int n => exactly (Integer.neg? n)
  | .float x => .ok (.float (-x))
  | v => refuse (.notNegatable v.ty)

end Parlance
