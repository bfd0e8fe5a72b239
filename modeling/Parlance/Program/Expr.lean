import Parlance.Signature
import Parlance.Token

namespace Parlance

-- Expressions. A node keeps the token that its messages quote, unless an operand has it.
-- A name keeps the type it was declared with; every other type follows from the operands.
inductive Expr where
  | constant (token : Token)
  | name (token : Token) (ty : Ty)
  | access (target index : Expr)
  | slice (target : Expr) (start stop : Option Expr)
  | logical (operator : Token) (left right : Expr)
  | relational (operator : Token) (left right : Expr)
  | arithmetic (operator : Token) (left right : Expr)
  | unary (operator : Token) (operand : Expr)
  | call (callee : Token) (ty : Ty) (args : List Expr)
  | method (receiver : Expr) (operation : Token) (args : List Expr)
  | array (bracket : Token) (items : List Expr)
  | dict (brace : Token) (entries : List (String × Expr))
  | assign (equal : Token) (target value : Expr)
  | comprehension (bracket iterator : Token) (ty : Ty) (init : Option Expr)
      (iterable projection : Expr)

namespace Expr

-- The token that stands for the expression in messages.
def token : Expr → Token
  | constant token => token
  | name token _ => token
  | access target _ => target.token
  | slice target _ _ => target.token
  | logical operator _ _ => operator
  | relational operator _ _ => operator
  | arithmetic operator _ _ => operator
  | unary operator _ => operator
  | call callee _ _ => callee
  | method _ operation _ => operation
  | array bracket _ => bracket
  | dict brace _ => brace
  | assign equal _ _ => equal
  | comprehension bracket _ _ _ _ _ => bracket

def line (e : Expr) : Nat :=
  e.token.line

-- The type of a call as far as its name tells it.
def callTy (name : String) : Ty :=
  (builtinType? name).getD .func

-- The type that can be read off an expression without looking at functions.
def ty : Expr → Ty
  | constant token =>
    match token.kind with
    | .number => .number
    | .string => .string
    | _ => .bool
  | name _ ty => ty
  | access target _ => target.ty
  | slice target _ _ => target.ty
  | logical _ _ _ => .bool
  | relational _ _ _ => .bool
  | arithmetic _ left _ => left.ty
  | unary operator operand => if operator.kind = .bang then .bool else operand.ty
  | call callee _ _ => callTy callee.lexeme
  | method _ operation _ => callTy operation.lexeme
  | array _ _ => .list
  | dict _ _ => .dict
  | assign _ target _ => target.ty
  | comprehension _ _ _ _ _ _ => .list

-- An element or a part of a collection: what it holds is known only when it runs.
def isElement : Expr → Bool
  | access _ _ => true
  | slice _ _ _ => true
  | _ => false

-- Names and elements of a collection can be assigned to.
def isAssignable : Expr → Bool
  | name _ _ => true
  | access _ _ => true
  | _ => false

def isCall : Expr → Bool
  | call _ _ _ => true
  | method _ _ _ => true
  | _ => false

-- Expressions whose static type promises nothing about their value.
def isErased : Expr → Bool
  | array _ _ => true
  | comprehension _ _ _ _ _ _ => true
  | access _ _ => true
  | slice _ _ _ => true
  | arithmetic _ _ _ => true
  | assign _ target _ => target.isErased
  | _ => false

end Expr

end Parlance
