import Parlance.Decimal.Layout
import Parlance.Heap
import Parlance.JsonValue

namespace Parlance.Heap

-- The depth to which collections are shown.
def displayDepth : Nat := 64

def clientText (h : Heap) (ref : Nat) : String :=
  match h.clients[ref]? with
  | some c => s!"<c_channel {c.endpoint.text}>"
  | none => "<c_channel>"

def serverText (h : Heap) (ref : Nat) : String :=
  match h.servers[ref]? with
  | some s => s!"<s_channel {s.description} {s.endpoint.text}>"
  | none => "<s_channel>"

def listText (items : List String) : String :=
  "[" ++ ", ".intercalate items ++ "]"

def dictText (entries : List (String × String)) : String :=
  "\x7b" ++ ", ".intercalate (entries.map fun e => "\"" ++ e.1 ++ "\": " ++ e.2) ++ "\x7d"

-- The text of a value that is not a collection.
def scalarText (h : Heap) (quoted : Bool) : Value → String
  | .int n => toString n.toInt
  | .float x => Decimal.display x
  | .bool b => if b then "true" else "false"
  | .void => "void"
  | .str s => if quoted then "\"" ++ s ++ "\"" else s
  | .client ref => h.clientText ref
  | .server ref => h.serverText ref
  | .list _ => "[...]"
  | .dict _ => "\x7b...\x7d"

-- The text of a value whose collections are shown to a depth. Texts are quoted inside
-- collections only.
def displayTo (h : Heap) : Nat → Bool → Value → String
  | depth + 1, _, .list ref => listText ((h.list ref).toList.map (h.displayTo depth true))
  | depth + 1, _, .dict ref =>
    dictText ((h.dict ref).entries.map fun e => (e.1, h.displayTo depth true e.2))
  | _, quoted, v => h.scalarText quoted v

-- A value as programs print it.
def display (h : Heap) (v : Value) : String :=
  h.displayTo displayDepth false v

-- What stands in JSON for a value that is not a collection. There are no infinite numbers in
-- it, and channels are texts.
def scalarJson (h : Heap) : Value → JsonValue
  | .int n => .int n.toInt
  | .float x => if x.isFinite then .float x else .null
  | .bool b => .bool b
  | .void => .null
  | .str s => .str s
  | .client ref => .str (h.clientText ref)
  | .server ref => .str (h.serverText ref)
  | .list _ => .str "..."
  | .dict _ => .str "..."

-- A value in JSON, with its collections shown to a depth.
def toJsonTo (h : Heap) : Nat → Value → JsonValue
  | depth + 1, .list ref => .array ((h.list ref).toList.map (h.toJsonTo depth))
  | depth + 1, .dict ref =>
    .object ((h.dict ref).entries.map fun e => (e.1, h.toJsonTo depth e.2))
  | _, v => h.scalarJson v

def toJson (h : Heap) (v : Value) : JsonValue :=
  h.toJsonTo displayDepth v

end Parlance.Heap
