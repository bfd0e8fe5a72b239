import Parlance.Program.Expr

namespace Parlance

-- The declaration of a variable or of the iterator of a loop.
structure Declaration where
  name : Token
  ty : Ty
  init : Option Expr

structure Param where
  name : String
  ty : Ty
  default : Option Expr

-- Statements.
inductive Stmt where
  | expression (value : Expr)
  | declaration (decl : Declaration)
  | function (name : String) (returns : Ty) (params : List Param) (body : List Stmt)
      (line : Nat)
  | ret (value : Option Expr) (line : Nat)
  | branch (condition : Expr) (yes : List Stmt) (no : Option (List Stmt))
  | loop (condition : Expr) (body : List Stmt)
  | each (iterator : Declaration) (iterable : Expr) (body : List Stmt)
  | brk (line : Nat)
  | cont (line : Nat)
  | par (body : List Stmt) (line : Nat)
  | seq (body : List Stmt)
  | client (name : String) (host port : Expr) (line : Nat)
  | server (name : String) (handler : Token) (description host port : Expr) (line : Nat)

-- A function as it is called.
structure Function where
  name : String
  returns : Ty
  params : List Param
  body : List Stmt
  line : Nat

namespace Param

-- A parameter without a default has to be given.
def isRequired (p : Param) : Bool :=
  p.default.isNone

end Param

-- The number of parameters that have to be given.
def requiredCount (params : List Param) : Nat :=
  params.countP Param.isRequired

abbrev Program :=
  List Stmt

end Parlance
