import Parlance.Value

namespace Parlance

-- The functions that every program has.
inductive Builtin where
  | print
  | input
  | sleep
  | debug
  | toNumber
  | toText
  | toBool
  | send
  | close
  | listen
  | len
  | isEmpty
  | isAlpha
  | isNumeral
  | sum
  | intersection
  | contains
  | append
  | sort
  | strip
  | lower
  | keys
  | split
  | pow
  | sqrt
  | exp
  | range
  | random
  deriving DecidableEq

namespace Builtin

def name : Builtin → String
  | print => "print"
  | input => "input"
  | sleep => "sleep"
  | debug => "debug"
  | toNumber => "to_number"
  | toText => "to_string"
  | toBool => "to_bool"
  | send => "send"
  | close => "close"
  | listen => "listen"
  | len => "len"
  | isEmpty => "isEmpty"
  | isAlpha => "isalpha"
  | isNumeral => "isnum"
  | sum => "sum"
  | intersection => "intersection"
  | contains => "contains"
  | append => "append"
  | sort => "sort"
  | strip => "strip"
  | lower => "lower"
  | keys => "keys"
  | split => "split"
  | pow => "pow"
  | sqrt => "sqrt"
  | exp => "exp"
  | range => "range"
  | random => "random"

def ofName? : String → Option Builtin
  | "print" => some print
  | "input" => some input
  | "sleep" => some sleep
  | "debug" => some debug
  | "to_number" => some toNumber
  | "to_string" => some toText
  | "to_bool" => some toBool
  | "send" => some send
  | "close" => some close
  | "listen" => some listen
  | "len" => some len
  | "isEmpty" => some isEmpty
  | "isalpha" => some isAlpha
  | "isnum" => some isNumeral
  | "sum" => some sum
  | "intersection" => some intersection
  | "contains" => some contains
  | "append" => some append
  | "sort" => some sort
  | "strip" => some strip
  | "lower" => some lower
  | "keys" => some keys
  | "split" => some split
  | "pow" => some pow
  | "sqrt" => some sqrt
  | "exp" => some exp
  | "range" => some range
  | "random" => some random
  | _ => none

theorem ofName?_name (b : Builtin) : ofName? b.name = some b := by
  cases b <;> rfl

theorem name_of_ofName? {name : String} {b : Builtin} (h : ofName? name = some b) :
    name = b.name := by
  unfold ofName? at h
  split at h <;> cases h <;> rfl

-- The argument of a call that takes one.
def one (b : Builtin) : List Value → Except Stop Value
  | [v] => .ok v
  | args => refuse (.arity b.name 1 1 args.length)

-- The arguments of a call that takes two.
def two (b : Builtin) : List Value → Except Stop (Value × Value)
  | [v, w] => .ok (v, w)
  | args => refuse (.arity b.name 2 2 args.length)

end Builtin

end Parlance
