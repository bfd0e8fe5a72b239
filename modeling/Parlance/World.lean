import Parlance.Console
import Parlance.Frames
import Parlance.Heap.Display
import Parlance.Host

namespace Parlance

structure Options where
  parallel : Bool
  host : Host

-- Everything that a running program can see or change, and how often it has asked its host for
-- something.
structure World where
  heap : Heap
  frames : Frames
  functions : Table Function
  console : Console
  listeners : List Network.Listener
  asked : Nat
  options : Options

-- The frame of the global variables.
def globals : Nat := 0

namespace World

def fresh (console : Console) (options : Options) : World :=
  { heap := Heap.empty
    frames := Frames.root
    functions := Table.empty
    console := console
    listeners := []
    asked := 0
    options := options }

end World

-- Computations in a world. What they have changed stays changed when they stop.
abbrev Exec :=
  EStateM Stop World

namespace Exec

variable {α β : Type}

def stop (reason : Stop) : Exec α :=
  fun w => .error reason w

def fault (cause : RuntimeFault) : Exec α :=
  stop (.fault (.runtime cause))

def faultAt (cause : RuntimeFault) (line : Nat) : Exec α :=
  stop (.fault (.runtimeAt cause line))

def outOfFuel : Exec α :=
  stop .outOfFuel

-- A computation that reads the heap only.
def reading (f : Heap → Except Stop α) : Exec α :=
  fun w =>
    match f w.heap with
    | .ok a => .ok a w
    | .error e => .error e w

def require (x : Except Stop α) : Exec α :=
  reading fun _ => x

-- Places a failure of a computation at a line, unless it has one.
def atLine (line : Nat) (body : Exec α) : Exec α :=
  fun w =>
    match body w with
    | .error (.fault f) w => .error (.fault (f.orLine line)) w
    | r => r

-- Adds something to the heap.
def onHeap (f : Heap → α × Heap) : Exec α :=
  modifyGet fun w =>
    let (a, heap) := f w.heap
    (a, { w with heap })

-- A failure as a value. A crash is a failure like any other here.
def attempt (body : Exec α) : Exec (Except Fault α) :=
  fun w =>
    match body w with
    | .ok a w => .ok (.ok a) w
    | .error (.fault f) w => .ok (.error f) w
    | .error .crash w => .ok (.error (.runtime .workerCrashed)) w
    | .error .outOfFuel w => .error .outOfFuel w

-- Gives a new collection a place in the heap.
def place (d : Draft) : Exec Value :=
  match d with
  | .value v => pure v
  | d => onHeap fun h => h.place d

-- Runs in a new frame under `env`, which is gone afterwards.
def withFrame (env : Nat) (body : Nat → Exec α) : Exec α :=
  fun w =>
    let n := w.frames.size
    match body n { w with frames := w.frames.child env } with
    | .ok a w => .ok a { w with frames := w.frames.release n }
    | .error e w => .error e { w with frames := w.frames.release n }

def define (env : Nat) (name : String) (v : Value) : Exec Unit :=
  modify fun w => { w with frames := w.frames.define env name v }

def write (text : String) : Exec Unit :=
  modify fun w => { w with console := w.console.write text }

def readLine : Exec (Option String) :=
  modifyGet fun w =>
    let (line, console) := w.console.readLine
    (line, { w with console })

-- Asks the host, who may answer in another way the next time.
def ask (question : Host → Nat → α) : Exec α :=
  modifyGet fun w => (question w.options.host w.asked, { w with asked := w.asked + 1 })

-- The text of a value.
def display (v : Value) : Exec String :=
  fun w => .ok (w.heap.display v) w

def isTrue (v : Value) : Exec Bool :=
  fun w => .ok (w.heap.isTrue v) w

theorem bind_apply (x : Exec α) (f : α → Exec β) (w : World) :
    (x >>= f) w =
      match x w with
      | .ok a w => f a w
      | .error e w => .error e w := by
  simp only [bind, EStateM.bind]
  cases x w <;> rfl

theorem get_apply (w : World) : (get : Exec World) w = .ok w w := rfl

theorem modify_apply (f : World → World) (w : World) :
    (modify f : Exec Unit) w = .ok () (f w) := rfl

theorem ask_apply (question : Host → Nat → α) (w : World) :
    ask question w = .ok (question w.options.host w.asked) { w with asked := w.asked + 1 } := rfl

end Exec

end Parlance
