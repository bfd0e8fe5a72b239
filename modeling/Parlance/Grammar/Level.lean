import Parlance.Grammar.Parse
import Parlance.Program.Expr

namespace Parlance.Grammar

-- A precedence level: its operators, which associate to the left, and their node.
structure Level where
  isOperator : TokenKind → Bool
  node : Token → Expr → Expr → Expr

namespace Level

def logicOr : Level :=
  ⟨(· == .or), .logical⟩

def logicAnd : Level :=
  ⟨(· == .and), .logical⟩

def equality : Level :=
  ⟨fun kind => kind == .equalEqual || kind == .notEqual, .relational⟩

def comparison : Level :=
  ⟨fun kind => kind == .less || kind == .lessEqual || kind == .greater ||
    kind == .greaterEqual, .relational⟩

def sum : Level :=
  ⟨fun kind => kind == .plus || kind == .minus, .arithmetic⟩

def term : Level :=
  ⟨fun kind => kind == .star || kind == .slash || kind == .percent, .arithmetic⟩

-- The levels of a sum, the loosest first.
def sums : List Level :=
  [sum, term]

-- All levels, the loosest first.
def all : List Level :=
  [logicOr, logicAnd, equality, comparison] ++ sums

-- The operators of a level after a first operand.
def chainRound (level : Level) (operand : Parse Expr) (again : Expr → Parse Expr)
    (left : Expr) : Parse Expr := do
  let token ← peek
  if level.isOperator token.kind then
    let operator ← advance
    let right ← operand
    again (level.node operator left right)
  else
    return left

def chain (level : Level) (operand : Parse Expr) : Nat → Expr → Parse Expr
  | 0, _ => outOfFuel
  | fuel + 1, left => level.chainRound operand (level.chain operand fuel) left

-- An expression of the given levels over the tightest ones.
def parse (tightest : Parse Expr) (fuel : Nat) : List Level → Parse Expr
  | [] => tightest
  | level :: tighter => do
    let left ← parse tightest fuel tighter
    level.chain (parse tightest fuel tighter) fuel left

end Level

end Parlance.Grammar
