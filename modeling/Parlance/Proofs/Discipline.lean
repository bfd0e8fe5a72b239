import Parlance.Proofs.Contract
import Parlance.Proofs.Frames
import Parlance.Proofs.Harmless
import Parlance.Proofs.Syntax

namespace Parlance

abbrev noName : String → Prop := fun _ => False

abbrev anyName : String → Prop := fun _ => True

namespace World

-- The world with a new frame under `env`.
def opened (w : World) (env : Nat) : World :=
  { w with frames := w.frames.child env }

-- The world with a name bound in a frame.
def defined (w : World) (env : Nat) (name : String) (v : Value) : World :=
  { w with frames := w.frames.define env name v }

-- The world with its first `n` frames only.
def closed (w : World) (n : Nat) : World :=
  { w with frames := w.frames.release n }

-- The world in which a function has been defined.
def learned (w : World) (f : Function) : World :=
  { w with functions := w.functions.insert f.name f }

-- What an evaluation in the frame `env` may do: to the frames what `Frames.Keeps` says. It
-- forgets no function, and gives back every client that it takes.
structure Moves (env : Nat) (new : String → Prop) (w t : World) : Prop where
  frames : Frames.Keeps env new w.frames t.frames
  functions : ∀ name, (w.functions.get? name).isSome → (t.functions.get? name).isSome
  held : ∀ ref, (t.heap.client ref).held = true → (w.heap.client ref).held = true

namespace Moves

variable {env : Nat} {new more : String → Prop} {w t u : World}

theorem refl (env : Nat) (new : String → Prop) (w : World) : w.Moves env new w :=
  ⟨.refl env new w.frames, fun _ h => h, fun _ h => h⟩

theorem trans (h : w.Moves env new t) (h' : t.Moves env new u) : w.Moves env new u :=
  ⟨h.frames.trans h'.frames, fun name hs => h'.functions name (h.functions name hs),
    fun ref hr => h.held ref (h'.held ref hr)⟩

theorem mono (h : w.Moves env new t) (hnew : ∀ name, new name → more name) :
    w.Moves env more t :=
  ⟨h.frames.mono hnew, h.functions, h.held⟩

end Moves

theorem moves_defined (w : World) (env : Nat) (name : String) (v : Value) :
    w.Moves env (· = name) (w.defined env name v) :=
  ⟨Frames.keeps_define w.frames env name v, fun _ h => h, fun _ h => h⟩

theorem moves_assigned {w : World} {env owner : Nat} {name : String}
    (h : w.frames.owner? name env = some owner) (v : Value) :
    w.Moves env noName (w.defined owner name v) :=
  ⟨Frames.keeps_assign h v, fun _ h => h, fun _ h => h⟩

theorem moves_learned (w : World) (env : Nat) (f : Function) :
    w.Moves env noName (w.learned f) := by
  refine ⟨.refl env noName w.frames, fun name h => ?_, fun _ h => h⟩
  rw [learned, Table.get?_insert]
  split
  · rfl
  · exact h

theorem moves_closed {w t : World} {env : Nat} {new : String → Prop}
    (h : (w.opened env).Moves w.frames.size new t) :
    w.Moves env noName (t.closed w.frames.size) :=
  ⟨Frames.keeps_release h.frames, h.functions, h.held⟩

theorem Quiet.moves {w t : World} (h : w.Quiet t) (env : Nat) (new : String → Prop) :
    w.Moves env new t := by
  refine ⟨?_, fun name hs => ?_, h.held⟩
  · rw [h.frames]
    exact .refl env new w.frames
  · rw [h.functions]
    exact hs

end World

-- What a server that does not exist answers with.
def idle : Function :=
  ⟨"", .void, [], [], 0⟩

-- All that can crash: a repetition, which may need more memory than there can be, and sorting.
def Expr.mayCrash : Expr → Bool
  | .arithmetic op _ _ => op.kind == .star
  | e => e.callName? == some Builtin.sort.name

-- A discipline of programs: judgements on syntax within a context of type `κ`, and what they
-- mean for running programs. The number in a judgement is the fuel that is left.
structure Discipline (κ : Type) where
  -- An expression is fine in a context, and a statement is and leads to another context.
  expr : Nat → κ → Expr → Prop
  stmt : Nat → κ → Stmt → κ → Prop
  -- Functions may be called in a context.
  call : Nat → κ → Prop
  -- The contexts of the blocks of a statement, and of the projection of a comprehension.
  inside : Stmt → κ → κ
  project : κ → String → κ
  -- A context describes a frame of a world, during a call or outside of calls.
  holds : Option Activation → κ → Nat → World → Prop
  -- A function may be called in a world.
  func : Function → World → Prop
  -- The ways for statements in a context to end, and for bodies of functions.
  signal : κ → Signal → Prop
  ends : Signal → Prop
  -- The ways to stop, and the lines at which failures are placed.
  allowed : Stop → Prop
  line : Nat → Prop := fun _ => True

namespace Discipline

variable {κ : Type}

-- Statements that are fine one after another.
inductive Block (D : Discipline κ) (n : Nat) : κ → List Stmt → Prop
  | nil (c : κ) : Block D n c []
  | cons {c c' : κ} {s : Stmt} {rest : List Stmt} (head : D.stmt n c s c')
      (tail : Block D n c' rest) : Block D n c (s :: rest)

-- The context that statements lead to, one after another.
inductive Leads (D : Discipline κ) (n : Nat) : κ → List Stmt → κ → Prop
  | nil (c : κ) : Leads D n c [] c
  | cons {c c' c'' : κ} {s : Stmt} {rest : List Stmt} (head : D.stmt n c s c')
      (tail : Leads D n c' rest c'') : Leads D n c (s :: rest) c''

-- What is known after a sequential block that has come to its end: its statements have led to
-- a context that described its frame. Of other statements nothing is known.
def Finished (D : Discipline κ) (n : Nat) (k : Option Activation) (c : κ) (s : Stmt)
    (w : World) : Prop :=
  ∀ body, s = .seq body → ∃ c' scope t, D.Leads n (D.inside s c) body c' ∧
    D.holds k c' scope t ∧ w = t.closed scope

-- Statements that change nothing about their context.
theorem Block.of_forall {D : Discipline κ} {n : Nat} {c : κ} {body : List Stmt}
    (h : ∀ s ∈ body, D.stmt n c s c) : D.Block n c body := by
  induction body with
  | nil => exact .nil c
  | cons s rest ih =>
    exact .cons (h s List.mem_cons_self) (ih fun t ht => h t (List.mem_cons_of_mem s ht))

-- The body of a function takes one unit of fuel itself.
def Body (D : Discipline κ) : Nat → κ → List Stmt → Prop
  | 0, _, _ => D.allowed .outOfFuel
  | n + 1, c, body => D.Block n c body

-- All functions that a program could call are fine.
structure Inv (D : Discipline κ) (w : World) : Prop where
  functions : ∀ name f, w.functions.get? name = some f → D.func f w
  servers : ∀ s ∈ w.heap.servers, D.func s.handler w

-- A function that is called from the frame `env` of a world: the context `c` describes its
-- frame while parameters are bound, and the context `c'` once all are.
structure Enters (D : Discipline κ) (n : Nat) (f : Function) (env : Nat) (w : World)
    (c c' : κ) : Prop where
  start : D.holds none c w.frames.size (w.opened env)
  default : ∀ p ∈ f.params, ∀ e, p.default = some e → D.expr n c e
  param : ∀ p ∈ f.params, ∀ t v, D.holds none c w.frames.size t →
    D.holds none c w.frames.size (t.defined w.frames.size p.name v)
  bound : ∀ t, (w.opened env).Moves w.frames.size f.HasParam t →
    D.holds none c w.frames.size t → (∀ x, f.HasParam x → t.frames.Binds w.frames.size x) →
    D.holds (some ⟨w.frames.size, f⟩) c' w.frames.size t
  body : D.Body n c' f.body
  ends : ∀ signal, D.signal c' signal → D.ends signal

-- What is evaluated stands at lines of the discipline, and so do the functions that are called
-- from frames that are too deep. What a server that does not exist answers with is called
-- among the globals only.
structure Lines (D : Discipline κ) : Prop where
  expr : ∀ {n c e}, D.expr (n + 1) c e → D.line e.line
  target : ∀ {n c eq target value}, D.expr (n + 1) c (.assign eq target value) →
    D.line target.line
  stmt : ∀ {n c s c'}, D.stmt (n + 1) c s c' → ∀ line ∈ s.lines, D.line line
  func : ∀ {k c env f w}, D.holds k c env w → D.func f w ∨ f = idle ∧ env = globals →
    Eval.callDepth < w.frames.depth env + 1 → D.line f.line

theorem Lines.of_forall {D : Discipline κ} (h : ∀ line, D.line line) : D.Lines :=
  ⟨fun _ => h _, fun _ => h _, fun _ _ _ => h _, fun _ _ _ => h _⟩

-- The ways for the statements of a context to end.
structure Signals (D : Discipline κ) : Prop where
  normal : ∀ c, D.signal c .normal
  breaks : ∀ {n c line c'}, D.stmt (n + 1) c (.brk line) c' → D.signal c .brk
  continues : ∀ {n c line c'}, D.stmt (n + 1) c (.cont line) c' → D.signal c .cont
  returns : ∀ {n c value line c'} (v : Value), D.stmt (n + 1) c (.ret value line) c' →
    D.signal c (.ret v)
  keeps : ∀ {n c s c' signal}, D.stmt n c s c' → D.signal c' signal → D.signal c signal
  passes : ∀ {n c s c' signal}, D.stmt (n + 1) c s c' → s.isLoop = false → s.isEach = false →
    D.signal (D.inside s c) signal → D.signal c signal
  leaves : ∀ {n c s c' v}, D.stmt (n + 1) c s c' → D.signal (D.inside s c) (.ret v) →
    D.signal c (.ret v)

theorem Signals.of_forall {D : Discipline κ} (h : ∀ c signal, D.signal c signal) : D.Signals :=
  ⟨fun _ => h _ _, fun _ => h _ _, fun _ => h _ _, fun _ _ => h _ _, fun _ _ => h _ _,
    fun _ _ _ _ => h _ _, fun _ _ => h _ _⟩

-- Where an evaluation can come to no end: where there is no fuel left, in a loop, and where a
-- client is waited for.
inductive Waits (D : Discipline κ) : Prop
  | expr {c : κ} {e : Expr} (he : D.expr 0 c e)
  | stmt {c : κ} {s : Stmt} {c' : κ} (hs : D.stmt 0 c s c')
  | call {c : κ} (hcall : D.call 0 c)
  | loop {n : Nat} {c : κ} {condition : Expr} {body : List Stmt} {c' : κ}
      (hs : D.stmt (n + 1) c (.loop condition body) c')
  | send {n : Nat} {c : κ} {e : Expr} (he : D.expr (n + 1) c e)
      (hname : e.callName? = some Builtin.send.name)
  | close {n : Nat} {k : Option Activation} {c : κ} {e : Expr} {env ref : Nat} {w : World}
      (he : D.expr (n + 1) c e) (hname : e.callName? = some Builtin.close.name)
      (hc : D.holds k c env w) (hheld : (w.heap.client ref).held = true)

-- The failures that depend on the text of a program, and what is known where they happen.
inductive Fails (D : Discipline κ) : RuntimeFault → Prop
  | literal {n : Nat} {c : κ} {token : Token} {s : Stop} (he : D.expr (n + 1) c (.constant token))
      (hvalue : Eval.constant token = .error s) : Fails D (.invalidNumber token.lexeme)
  | unbound {n : Nat} {k : Option Activation} {c : κ} {token : Token} {ty : Ty} {env : Nat}
      {w : World} (he : D.expr (n + 1) c (.name token ty)) (hc : D.holds k c env w)
      (howner : w.frames.owner? token.lexeme env = none) :
      Fails D (.undefinedVariable token.lexeme)
  | unassigned {n : Nat} {k : Option Activation} {c : κ} {eq token : Token} {ty : Ty}
      {value : Expr} {env : Nat} {w : World}
      (he : D.expr (n + 1) c (.assign eq (.name token ty) value)) (hc : D.holds k c env w)
      (howner : w.frames.owner? token.lexeme env = none) :
      Fails D (.undefinedVariable token.lexeme)
  | unassignable {n : Nat} {c : κ} {eq : Token} {target value : Expr}
      (he : D.expr (n + 1) c (.assign eq target value)) (htarget : target.isAssignable = false) :
      Fails D (.notAssignable target.token.lexeme)
  | relational {n : Nat} {c : κ} {op : Token} {left right : Expr}
      (he : D.expr (n + 1) c (.relational op left right)) (hop : op.kind.isRelational = false) :
      Fails D (.unknownRelational op.kind)
  | arithmetic {n : Nat} {c : κ} {op : Token} {left right : Expr}
      (he : D.expr (n + 1) c (.arithmetic op left right)) (hop : op.kind.isArithmetic = false) :
      Fails D (.unknownArithmetic op.kind)
  | unknown {n : Nat} {k : Option Activation} {c : κ} {e : Expr} {name : String} {env : Nat}
      {w : World} (he : D.expr (n + 1) c e) (hname : e.callName? = some name)
      (hc : D.holds k c env w) (huser : Builtin.ofName? name = none)
      (hfunction : w.functions.get? name = none) : Fails D (.undefinedFunction name)
  | unhandled {n : Nat} {k : Option Activation} {c : κ} {name : String} {handler : Token}
      {description host port : Expr} {line : Nat} {c' : κ} {env : Nat} {w : World}
      (hs : D.stmt (n + 1) c (.server name handler description host port line) c')
      (hc : D.holds k c env w) (hfunction : w.functions.get? handler.lexeme = none) :
      Fails D (.undefinedFunction handler.lexeme)
  | missing {n : Nat} {c : κ} (param function : String) (hcall : D.call (n + 1) c) :
      Fails D (.missingArgument param function)
  | deep {n : Nat} {c : κ} (hcall : D.call (n + 1) c) : Fails D (.recursionLimit Eval.callDepth)

-- A discipline whose judgements are about all that is evaluated, and whose contexts stay
-- right while a program runs. Every evaluation keeps to such a discipline. What is left out
-- holds because the discipline asks for nothing there.
structure Lawful (D : Discipline κ) : Prop where
  -- What an expression or a statement contains is fine where it is evaluated.
  operand : ∀ {n c e}, D.expr (n + 1) c e → ∀ x ∈ e.operands, D.expr n c x := by
    exact fun _ _ _ => trivial
  projection : ∀ {n c bracket iterator ty initial iterable projection},
    D.expr (n + 1) c (.comprehension bracket iterator ty initial iterable projection) →
    D.expr n (D.project c iterator.lexeme) projection := by exact fun _ => trivial
  calling : ∀ {n c e name}, D.expr (n + 1) c e → e.callName? = some name → D.call n c := by
    exact fun _ _ => trivial
  value : ∀ {n c s c'}, D.stmt (n + 1) c s c' → ∀ x ∈ s.operands, D.expr n c x := by
    exact fun _ _ _ => trivial
  block : ∀ {n c s c'}, D.stmt (n + 1) c s c' → ∀ body ∈ s.blocks, D.Block n (D.inside s c) body
  -- Contexts describe the frames that come to be.
  stable : ∀ {k c env w t}, D.holds k c env w → w.Moves env noName t → D.holds k c env t := by
    exact fun _ _ => trivial
  opens : ∀ {n k c s c' env w}, D.stmt (n + 1) c s c' → s.blocks ≠ [] → s.isEach = false →
    D.holds k c env w → D.holds k (D.inside s c) w.frames.size (w.opened env) := by
    exact fun _ _ _ _ => trivial
  iterates : ∀ {n k c d iterable body c' env w} (v : Value),
    D.stmt (n + 1) c (.each d iterable body) c' → D.holds k c env w →
    D.holds k (D.inside (.each d iterable body) c) w.frames.size
      ((w.opened env).defined w.frames.size d.name.lexeme v) := by exact fun _ _ _ => trivial
  projects : ∀ {n k c bracket iterator ty initial iterable projection env w} (v : Value),
    D.expr (n + 1) c (.comprehension bracket iterator ty initial iterable projection) →
    D.holds k c env w →
    D.holds k (D.project c iterator.lexeme) w.frames.size
      ((w.opened env).defined w.frames.size iterator.lexeme v) := by exact fun _ _ _ => trivial
  follows : ∀ {n k c s c' env w}, D.stmt (n + 1) c s c' → s.introduces = none →
    s.isFunction = false → D.Finished n k c s w → D.holds k c env w → D.holds k c' env w := by
    exact fun _ _ _ _ _ => trivial
  declares : ∀ {n k c s c' env w x} (v : Value), D.stmt (n + 1) c s c' →
    s.introduces = some x → D.holds k c env w → D.holds k c' env (w.defined env x v) := by
    exact fun _ _ _ _ => trivial
  defines : ∀ {n k c name returns params body line c' env w},
    D.stmt (n + 1) c (.function name returns params body line) c' → D.holds k c env w →
    D.func ⟨name, returns, params, body, line⟩ (w.learned ⟨name, returns, params, body, line⟩) ∧
      D.holds k c' env (w.learned ⟨name, returns, params, body, line⟩)
  signals : D.Signals := by exact .of_forall fun _ _ => trivial
  -- Functions stay fine as globals and functions are added, and can be called.
  binds : ∀ {f w t}, (∀ name, w.frames.Binds globals name → t.frames.Binds globals name) →
    (∀ name, (w.functions.get? name).isSome → (t.functions.get? name).isSome) →
    D.func f w → D.func f t := by exact fun _ _ hf => hf
  closes : ∀ {k c env f w t}, D.holds k c env w → t.frames.size = w.frames.size + 1 →
    D.func f t → D.func f (t.closed w.frames.size) := by exact fun _ _ hf => hf
  enters : ∀ {n k c env f w}, D.call (n + 1) c → D.holds k c env w → D.func f w ∨ f = idle →
    w.frames.depth env + 1 ≤ Eval.callDepth → ∃ c₁ c₂, D.Enters n f env w c₁ c₂
  serves : ∀ {n k c e env w}, D.expr (n + 1) c e → e.callName? = some Builtin.send.name →
    D.holds k c env w → ∃ c₀, (∀ heap, D.holds none c₀ globals { w with heap }) ∧ D.call n c₀
  -- The ways to stop.
  waits : D.Waits → D.allowed .outOfFuel := by exact fun _ => trivial
  crashes : ∀ {n c e}, D.expr (n + 1) c e → e.mayCrash = true → D.allowed .crash := by
    exact fun _ _ => trivial
  ordinary : ∀ {s}, s.Ordinary → D.allowed s := by exact fun _ => trivial
  fails : ∀ {cause}, D.Fails cause → D.allowed (.fault (.runtime cause)) := by
    exact fun _ => trivial
  lines : D.Lines := by exact .of_forall fun _ => trivial
  placed : ∀ {f}, D.allowed (.fault f) → ∀ line, D.line line →
    D.allowed (.fault (f.orLine line)) := by exact fun _ _ _ => trivial

end Discipline

end Parlance
