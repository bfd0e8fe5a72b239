namespace Parlance

-- The types that a declaration, an expression or a value can have. Functions and
-- channels have a type of their own although no keyword names it.
inductive Ty where
  | number
  | string
  | bool
  | list
  | dict
  | func
  | void
  | client
  | server
  deriving DecidableEq

namespace Ty

-- The name under which a type appears in messages.
def name : Ty → String
  | number => "NUMBER"
  | string => "STRING"
  | bool => "BOOL"
  | list => "LIST"
  | dict => "DICT"
  | func => "FUNC"
  | void => "VOID"
  | client => "C_CHANNEL"
  | server => "S_CHANNEL"

-- The type that a keyword of the language stands for.
def ofKeyword? : String → Option Ty
  | "number" => some number
  | "string" => some string
  | "bool" => some bool
  | "list" => some list
  | "dict" => some dict
  | "void" => some void
  | _ => none

-- Every type, in the order of declaration.
def all : List Ty :=
  [number, string, bool, list, dict, func, void, client, server]

-- The type with a given name.
def ofName? (s : String) : Option Ty :=
  all.find? fun ty => ty.name == s

end Ty

end Parlance
