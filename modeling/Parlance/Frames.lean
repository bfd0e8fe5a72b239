import Parlance.Table
import Parlance.Value

namespace Parlance

-- The variables of one block that is running. A frame looks names up in its parent when it
-- does not bind them itself; its depth is the number of frames above it.
structure Frame where
  bindings : Table Value
  parent : Option Nat
  depth : Nat

-- All frames. A frame is known by its position, and its parent stands before it.
structure Frames where
  all : Array Frame

namespace Frames

-- A single frame, the one of the global variables.
def root : Frames :=
  ⟨#[⟨Table.empty, none, 0⟩]⟩

def size (fs : Frames) : Nat :=
  fs.all.size

def bindings (fs : Frames) (env : Nat) : Table Value :=
  match fs.all[env]? with
  | some f => f.bindings
  | none => Table.empty

def depth (fs : Frames) (env : Nat) : Nat :=
  match fs.all[env]? with
  | some f => f.depth
  | none => 0

-- The frames with a new one under `env`. The new frame is the last one.
def child (fs : Frames) (env : Nat) : Frames :=
  ⟨fs.all.push ⟨Table.empty, some env, fs.depth env + 1⟩⟩

-- The first `n` frames.
def release (fs : Frames) (n : Nat) : Frames :=
  ⟨fs.all.shrink n⟩

-- Binds a name in a frame itself.
def define (fs : Frames) (env : Nat) (name : String) (v : Value) : Frames :=
  ⟨fs.all.modify env fun f => { f with bindings := f.bindings.insert name v }⟩

-- A frame and those above it, the innermost first.
def chain (fs : Frames) (env : Nat) : List Nat :=
  match fs.all[env]? with
  | none => []
  | some f =>
    match f.parent with
    | none => [env]
    | some parent => if parent < env then env :: fs.chain parent else [env]
termination_by env

-- The variables of a frame and of those above it, the innermost first.
def visible (fs : Frames) (env : Nat) : List (Table Value) :=
  (fs.chain env).map fs.bindings

-- The nearest frame that binds a name.
def owner? (fs : Frames) (name : String) (env : Nat) : Option Nat :=
  match fs.all[env]? with
  | none => none
  | some f =>
    if f.bindings.contains name then some env
    else
      match f.parent with
      | none => none
      | some parent => if parent < env then fs.owner? name parent else none
termination_by env

def get? (fs : Frames) (env : Nat) (name : String) : Option Value :=
  match fs.owner? name env with
  | some owner => (fs.bindings owner).get? name
  | none => none

-- Changes the nearest binding of a name, if there is one.
def assign? (fs : Frames) (env : Nat) (name : String) (v : Value) : Option Frames :=
  match fs.owner? name env with
  | some owner => some (fs.define owner name v)
  | none => none

@[simp]
theorem size_child (fs : Frames) (env : Nat) : (fs.child env).size = fs.size + 1 := by
  simp [size, child]

@[simp]
theorem size_define (fs : Frames) (env : Nat) (name : String) (v : Value) :
    (fs.define env name v).size = fs.size := by
  simp [size, define]

theorem bindings_child_self (fs : Frames) (env : Nat) :
    (fs.child env).bindings fs.size = Table.empty := by
  simp [bindings, child, size]

theorem depth_child_self (fs : Frames) (env : Nat) :
    (fs.child env).depth fs.size = fs.depth env + 1 := by
  simp [depth, child, size]

-- A new frame changes none of the others.
theorem bindings_child_of_lt (fs : Frames) (env : Nat) {other : Nat} (h : other < fs.size) :
    (fs.child env).bindings other = fs.bindings other := by
  have hne : other ≠ fs.all.size := Nat.ne_of_lt h
  simp [bindings, child, Array.getElem?_push, hne]

theorem bindings_define_self (fs : Frames) {env : Nat} (name : String) (v : Value)
    (h : env < fs.size) :
    (fs.define env name v).bindings env = (fs.bindings env).insert name v := by
  have hget : fs.all[env]? = some fs.all[env] := Array.getElem?_eq_getElem h
  simp [bindings, define, Array.getElem?_modify, hget]

theorem bindings_define_of_ne (fs : Frames) {env other : Nat} (name : String) (v : Value)
    (h : other ≠ env) : (fs.define env name v).bindings other = fs.bindings other := by
  simp [bindings, define, Array.getElem?_modify, Ne.symm h]

end Frames

end Parlance
