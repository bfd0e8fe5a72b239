import Parlance.Ty

namespace Parlance

-- The built-in functions and the types of their results. The names are visible
-- everywhere, and a call of one of them is always a call of the built-in.
def signatures : List (String × Ty) :=
  [("print", .void), ("input", .string), ("sleep", .void), ("to_number", .number),
   ("to_string", .string), ("to_bool", .bool), ("send", .string), ("close", .void),
   ("listen", .void), ("len", .number), ("isalpha", .bool), ("isnum", .bool),
   ("sum", .number), ("pow", .number), ("sqrt", .number), ("exp", .number),
   ("range", .list), ("random", .number), ("intersection", .list), ("contains", .bool),
   ("isEmpty", .bool), ("append", .void), ("sort", .void), ("strip", .string),
   ("lower", .string), ("keys", .list), ("split", .list), ("debug", .void)]

-- The type of the result of a built-in function.
def builtinType? (name : String) : Option Ty :=
  signatures.lookup name

end Parlance
