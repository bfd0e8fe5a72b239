import Parlance.Builtin.Collection
import Parlance.Builtin.Conversion
import Parlance.Builtin.Number
import Parlance.Eval.Channel

namespace Parlance.Eval

open Exec

def print (args : List Value) : Exec Value := do
  let texts ← args.mapM display
  write (" ".intercalate texts ++ "\n")
  return .void

-- Reads a line, after writing what it is asked for with.
def input (args : List Value) : Exec Value := do
  match args with
  | [] => pure ()
  | [prompt] => write (← display prompt)
  | args => fault (.arity Builtin.input.name 0 1 args.length)
  match ← readLine with
  | some line => return .str line
  | none => fault .endOfInput

-- Waiting changes nothing that a program can see.
def sleep (args : List Value) : Exec Value := do
  let v ← require (Builtin.sleep.one args)
  let seconds ← require (v.asFloat "sleep duration")
  if Builtin.canWait seconds then return .void
  else fault (.sleepDuration (Decimal.bare seconds))

def frameJson (heap : Heap) (bindings : Table Value) (depth : Nat) : JsonValue :=
  let bindings := bindings.entries.map fun e => (e.1, heap.toJson e.2)
  .object [("depth", .int depth), ("bindings", .object bindings)]

-- Writes values in JSON, or all variables that can be seen if there are no values. The
-- frames are numbered down to the one of the global variables.
def debug (env : Nat) (args : List Value) : Exec Value := do
  let w ← get
  let items :=
    match args with
    | [] =>
      let depths := (List.range (w.frames.depth env + 1)).reverse
      ((w.frames.visible env).zip depths).map fun frame => frameJson w.heap frame.1 frame.2
    | args => args.map w.heap.toJson
  write (w.options.host.printJson (.array items) ++ "\n")
  return .void

-- A function of its only argument and the heap.
def ofValue (b : Builtin) (args : List Value) (f : Heap → Value → Except Stop Value) : Exec Value :=
  reading fun h => do f h (← b.one args)

-- A function of the text of its only argument.
def ofText (b : Builtin) (args : List Value) (f : String → Value) : Exec Value :=
  ofValue b args fun h v => return f (h.display v)

def texts (parts : List String) : Draft :=
  .list (parts.map Value.str).toArray

def send (ev : Evaluators) (args : List Value) : Exec Value := do
  match ← require (Builtin.send.two args) with
  | (.client ref, v) => return .str (← request ev ref (← display v))
  | (v, _) => fault (.needs Builtin.send.name .client v.ty)

def close (args : List Value) : Exec Value := do
  match ← require (Builtin.close.one args) with
  | .client ref =>
    holding ref (disconnect ref)
    return .void
  | v => fault (.needs Builtin.close.name .client v.ty)

def listen (args : List Value) : Exec Value := do
  match ← require (Builtin.listen.one args) with
  | .server ref =>
    serve ref
    return .void
  | v => fault (.needs Builtin.listen.name .server v.ty)

def intersection (args : List Value) : Exec Value := do
  match ← require (Builtin.intersection.two args) with
  | (.list a, .list b) =>
    let h := (← get).heap
    place (.list (Builtin.common h (h.list a).toList (h.list b).toList).toArray)
  | (v, w) => fault (.intersectionOperands v.ty w.ty)

-- Adds a value at the end of a list.
def append (args : List Value) : Exec Value := do
  let (container, v) ← require (Builtin.append.two args)
  let ref ← require (Builtin.append.listOf container)
  modify fun w => { w with heap := w.heap.append ref v }
  return .void

-- Sorts a list in its place. A list that cannot be sorted stays as it is.
def sort (args : List Value) : Exec Value := do
  let ref ← require (Builtin.sort.one args >>= Builtin.sort.listOf)
  let items ← reading fun h => Builtin.sorted (h.list ref).toList
  modify fun w => { w with heap := w.heap.setList ref items.toArray }
  return .void

def keys (args : List Value) : Exec Value := do
  match ← require (Builtin.keys.one args) with
  | .dict ref => place (texts ((← get).heap.dict ref).keys)
  | v => fault (.needs Builtin.keys.name .dict v.ty)

def random (args : List Value) : Exec Value := do
  let number ← ask fun host turn => Builtin.draw host.draws turn args
  require number

-- Calls a built-in function.
def builtin (ev : Evaluators) (env : Nat) (args : List Value) (b : Builtin) : Exec Value :=
  match b with
  | .print => print args
  | .input => input args
  | .sleep => sleep args
  | .debug => debug env args
  | .toNumber => ofValue b args fun _ => Builtin.number
  | .toText => ofText b args .str
  | .toBool => ofValue b args fun h v => return .bool (h.isTrue v)
  | .send => send ev args
  | .close => close args
  | .listen => listen args
  | .len => ofValue b args fun h v => return .int (Int64.ofNat (← Builtin.length h v))
  | .isEmpty => ofValue b args fun h v => return .bool ((← Builtin.length h v) == 0)
  | .isAlpha => ofText b args fun s => .bool (Builtin.isWord s)
  | .isNumeral => ofText b args fun s => .bool (Builtin.isNumber s)
  | .sum => ofValue b args fun h v => do
    let ref ← Builtin.sum.listOf v
    Builtin.total (h.list ref).toList
  | .intersection => intersection args
  | .contains => reading fun h => do
    let (container, v) ← b.two args
    return .bool (← Builtin.holds h container v)
  | .append => append args
  | .sort => sort args
  | .strip => ofText b args fun s => .str (Text.trim s)
  | .lower => ofText b args fun s => .str (Text.lower s)
  | .keys => keys args
  | .split => do place (texts (← require (Builtin.pieces args)))
  | .pow => require do
    let (base, exponent) ← b.two args
    Builtin.power base exponent
  | .sqrt => ofValue b args fun _ => Builtin.root
  | .exp => ofValue b args fun _ => Builtin.exponential
  | .range => do place (.list (← require (Builtin.terms args)))
  | .random => random args

end Parlance.Eval
