import Parlance.Signature

namespace Parlance

-- The names declared in one block, with their types.
abbrev Layer :=
  List (String × Ty)

-- The names visible at a point of the text: the innermost block, then the blocks around
-- it from the inside out.
structure Scope where
  layer : Layer
  outer : List Layer

namespace Scope

def empty : Scope :=
  ⟨[], []⟩

-- The outermost block, in which the built-in functions are declared.
def root : Scope :=
  ⟨signatures.map fun s => (s.1, .func), []⟩

def layers (s : Scope) : List Layer :=
  s.layer :: s.outer

-- Declares a name in the innermost block, unless it is declared there already.
def insert? (s : Scope) (name : String) (ty : Ty) : Option Scope :=
  match s.layer.lookup name with
  | some _ => none
  | none => some { s with layer := (name, ty) :: s.layer }

-- Declares those of the names that are new, in order.
def insertAll (s : Scope) : Layer → Scope
  | [] => s
  | (name, ty) :: rest => ((s.insert? name ty).getD s).insertAll rest

-- The type of a name in the innermost block that declares it.
def find? (s : Scope) (name : String) : Option Ty :=
  s.layers.findSome? fun layer => layer.lookup name

def push (s : Scope) : Scope :=
  ⟨[], s.layers⟩

-- Leaves the innermost block. The outermost one stays.
def pop (s : Scope) : Scope :=
  match s.outer with
  | [] => s
  | layer :: outer => ⟨layer, outer⟩

def depth (s : Scope) : Nat :=
  s.layers.length

@[simp]
theorem pop_push (s : Scope) : s.push.pop = s := rfl

@[simp]
theorem depth_push (s : Scope) : s.push.depth = s.depth + 1 := rfl

end Scope

end Parlance
