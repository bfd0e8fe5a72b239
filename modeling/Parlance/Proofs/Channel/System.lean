import Parlance.Proofs.Contract

namespace Parlance

-- A world without channels.
structure World.Unconnected (w : World) : Prop where
  clients : w.heap.clients = #[]
  servers : w.heap.servers = #[]
  connections : w.heap.connections = #[]
  listeners : w.listeners = []

-- Two worlds that differ in nothing that channels are made of.
structure World.Apart (w t : World) : Prop where
  clients : t.heap.clients = w.heap.clients
  servers : t.heap.servers = w.heap.servers
  connections : t.heap.connections = w.heap.connections
  listeners : t.listeners = w.listeners
  options : t.options = w.options

-- What a server writes when a call of its handler is over: the text of the value, if there is
-- one.
def Outcome.reply? : Outcome Value → Option String
  | .ok v w => some (w.heap.display v)
  | .error _ _ => none

namespace Channel

-- What can come of the calls of handlers that start in a world. Others are at work until a call is
-- over, so it need not be what comes of a call that runs alone. But that is possible, too.
structure Conduct where
  outcomes : Function → List Value → World → Outcome Value → Prop
  isOver : ∀ {f args w r}, outcomes f args w r → Outcome.isOver r = true
  alone : ∀ {n f args w}, Outcome.isOver ((evaluators n).call globals f args w) = true →
    outcomes f args w ((evaluators n).call globals f args w)

-- What happens to channels. Sends and connections are told apart by numbers.
inductive Event where
  -- A client or a server comes to be. The server waits for clients.
  | opens (ref : Nat) (endpoint : Endpoint)
  | offers (server : Nat) (s : Server)
  | listens (server : Nat)
  -- A send takes its client, with the connection that the client has. A client without one
  -- gets one to a server, unless it is refused. The text of the send is written then.
  | begins (i ref : Nat) (text : String) (connection : Option Nat)
  | refused (i : Nat) (reason : String)
  | dials (i k server : Nat)
  | posts (i k : Nat) (text : String)
  -- The server calls a function under a frame in a world. When the call is over, the text of its
  -- value is written, or the server hangs up if the call has failed.
  | invokes (k env : Nat) (f : Function) (args : List Value) (w : World)
  | ends (k : Nat) (r : Outcome Value)
  -- The send is over. It has a reply, unless the server has hung up.
  | returns (i k : Nat) (reply : Option String)
  -- A client gives up its connection, which the server notices.
  | closes (ref : Nat) (connection : Option Nat)
  | departs (k : Nat)

namespace Event

-- The connection that something happens at.
def connection? : Event → Option Nat
  | opens _ _ | offers _ _ | listens _ | begins _ _ _ _ | refused _ _ => none
  | dials _ k _ | posts _ k _ | invokes k _ _ _ _ | ends k _ | returns _ k _ | departs k => some k
  | closes _ k => k

-- The send that does something.
def send? : Event → Option Nat
  | begins i _ _ _ | refused i _ | dials i _ _ | posts i _ _ | returns i _ _ => some i
  | opens _ _ | offers _ _ | listens _ | invokes _ _ _ _ _ | ends _ _ | closes _ _ | departs _ =>
    none

-- The client that a send takes, or that gives up its connection.
def client? : Event → Option Nat
  | begins _ ref _ _ | closes ref _ => some ref
  | opens _ _ | offers _ _ | listens _ | refused _ _ | dials _ _ _ | posts _ _ _
  | invokes _ _ _ _ _ | ends _ _ | returns _ _ _ | departs _ => none

end Event

-- What has happened at a connection, and what a send has done.
def conversation (k : Nat) (es : List Event) : List Event :=
  es.filter fun e => e.connection? = some k

def sending (i : Nat) (es : List Event) : List Event :=
  es.filter fun e => e.send? = some i

-- How far a send has come.
inductive Phase where
  | idle
  | started (ref : Nat) (text : String)
  | waiting (ref : Nat) (text : String) (k : Nat)
  | done

-- The client that a send holds.
def Phase.client? : Phase → Option Nat
  | idle | done => none
  | started ref _ | waiting ref _ _ => some ref

-- What the server does at a connection. A call of its handler has started in a world.
inductive Turn where
  | reading
  | answering (f : Function) (args : List Value) (start : World)
  | ended

def update {α : Type} (f : Nat → α) (i : Nat) (a : α) : Nat → α :=
  fun j => if j = i then a else f j

theorem update_self {α : Type} (f : Nat → α) (i : Nat) (a : α) : update f i a i = a :=
  if_pos rfl

theorem update_of_ne {α : Type} {i j : Nat} (h : j ≠ i) (f : Nat → α) (a : α) :
    update f i a j = f j :=
  if_neg h

-- Sends and servers at work in one world.
structure State where
  world : World
  sends : Nat → Phase
  turns : Nat → Turn

namespace State

-- Nothing has begun.
def start (w : World) : State :=
  ⟨w, fun _ => .idle, fun _ => .reading⟩

def heap (S : State) : Heap :=
  S.world.heap

def network (S : State) : Network :=
  S.world.options.host.network

-- The host has been asked for something.
def asking (S : State) : State :=
  { S with world := { S.world with asked := S.world.asked + 1 } }

def onHeap (S : State) (f : Heap → Heap) : State :=
  { S with world := { S.world with heap := f S.world.heap } }

def send (S : State) (i : Nat) (phase : Phase) : State :=
  { S with sends := update S.sends i phase }

def turn (S : State) (k : Nat) (turn : Turn) : State :=
  { S with turns := update S.turns k turn }

-- A server waits for clients.
def listening (S : State) (ref : Nat) : State :=
  let listener : Network.Listener := ⟨(S.heap.server ref).endpoint, ref⟩
  { S with world := { S.world with listeners := listener :: S.world.listeners } }

-- A server has read what has come over a connection.
def fetched (S : State) (k : Nat) (c : Connection) : State :=
  S.onHeap (·.onConnection k fun _ => c)

-- A server has said what came of a call: it has written a reply, or has hung up.
def ends (S : State) (k : Nat) : Option String → State
  | some reply => (S.onHeap (·.onConnection k (·.reply reply))).turn k .reading
  | none => (S.onHeap (·.onConnection k .hangUp)).turn k .ended

@[simp]
theorem heap_start (w : World) : (start w).heap = w.heap :=
  rfl

@[simp]
theorem sends_start (w : World) (i : Nat) : (start w).sends i = .idle :=
  rfl

@[simp]
theorem heap_asking (S : State) : S.asking.heap = S.heap :=
  rfl

@[simp]
theorem sends_asking (S : State) : S.asking.sends = S.sends :=
  rfl

@[simp]
theorem heap_onHeap (S : State) (f : Heap → Heap) : (S.onHeap f).heap = f S.heap :=
  rfl

@[simp]
theorem sends_onHeap (S : State) (f : Heap → Heap) : (S.onHeap f).sends = S.sends :=
  rfl

@[simp]
theorem heap_send (S : State) (i : Nat) (phase : Phase) : (S.send i phase).heap = S.heap :=
  rfl

@[simp]
theorem sends_send (S : State) (i : Nat) (phase : Phase) :
    (S.send i phase).sends = update S.sends i phase :=
  rfl

@[simp]
theorem heap_turn (S : State) (k : Nat) (turn : Turn) : (S.turn k turn).heap = S.heap :=
  rfl

@[simp]
theorem sends_turn (S : State) (k : Nat) (turn : Turn) : (S.turn k turn).sends = S.sends :=
  rfl

end State

-- What can happen next, with what is to be told about it. Handlers are at work from `invokes` to
-- `ends`, and all else can happen meanwhile.
inductive Step (C : Conduct) : State → List Event → State → Prop
  | changes {S : State} {w : World} (happart : S.world.Apart w) :
    Step C S [] { S with world := w }
  | opens (S : State) (endpoint : Endpoint) :
    Step C S [.opens S.heap.clients.size endpoint] (S.onHeap fun h => (h.addClient endpoint).2)
  | offers (S : State) (s : Server) :
    Step C S [.offers S.heap.servers.size s] (S.onHeap fun h => (h.addServer s).2)
  | listens {S : State} {ref : Nat}
    (haccepted : S.network.refusal? S.world.asked S.world.listeners
      (S.heap.server ref).endpoint = none) :
    Step C S [.listens ref] (S.asking.listening ref)
  | begins {S : State} {i ref : Nat} (text : String) (hidle : S.sends i = .idle)
    (href : ref < S.heap.clients.size) (hfree : (S.heap.client ref).held = false) :
    Step C S [.begins i ref text (S.heap.client ref).connection]
      ((S.onHeap (·.hold ref true)).send i (.started ref text))
  | refused {S : State} {i ref : Nat} {text reason : String}
    (hsend : S.sends i = .started ref text) (hnone : (S.heap.client ref).connection = none)
    (hconnect : S.network.connect S.world.asked S.world.listeners (S.heap.client ref).endpoint =
      .error reason) :
    Step C S [.refused i reason] ((S.asking.onHeap (·.hold ref false)).send i .done)
  | dials {S : State} {i ref server : Nat} {text : String}
    (hsend : S.sends i = .started ref text) (hnone : (S.heap.client ref).connection = none)
    (hconnect : S.network.connect S.world.asked S.world.listeners (S.heap.client ref).endpoint =
      .ok server) :
    Step C S [.dials i S.heap.connections.size server] (S.asking.onHeap (·.dial ref server))
  | posts {S : State} {i ref k : Nat} {text : String} (hsend : S.sends i = .started ref text)
    (hsome : (S.heap.client ref).connection = some k) :
    Step C S [.posts i k text]
      ((S.onHeap (·.onConnection k (·.post text))).send i (.waiting ref text k))
  | invokes {S : State} {k : Nat} {f : Function} {text : String} {c : Connection}
    (hk : k < S.heap.connections.size) (hturn : S.turns k = .reading)
    (hfetch : (S.heap.connection k).fetch? = some (some text, c))
    (hf : (S.heap.server (S.heap.connection k).server).handler = f) :
    Step C S [.invokes k globals f [.str text] (S.fetched k c).world]
      ((S.fetched k c).turn k (.answering f [.str text] (S.fetched k c).world))
  | ends {S : State} {k : Nat} {f : Function} {args : List Value} {start : World}
    {r : Outcome Value} (hk : k < S.heap.connections.size)
    (hturn : S.turns k = .answering f args start) (hr : C.outcomes f args start r)
    (hworld : Outcome.world r = S.world) :
    Step C S [.ends k r] (S.ends k r.reply?)
  | returns {S : State} {i ref k : Nat} {text reply : String} {c : Connection}
    (hsend : S.sends i = .waiting ref text k)
    (hcollect : (S.heap.connection k).collect? = some (some reply, c)) :
    Step C S [.returns i k (some reply)]
      ((S.onHeap fun h => (h.onConnection k fun _ => c).hold ref false).send i .done)
  | loses {S : State} {i ref k : Nat} {text : String} {c : Connection}
    (hsend : S.sends i = .waiting ref text k)
    (hcollect : (S.heap.connection k).collect? = some (none, c)) :
    Step C S [.returns i k none]
      ((S.onHeap fun h => ((h.onConnection k fun _ => c).leave ref).hold ref false).send i .done)
  | closes {S : State} {ref : Nat} (hfree : (S.heap.client ref).held = false) :
    Step C S [.closes ref (S.heap.client ref).connection] (S.onHeap (·.leave ref))
  | departs {S : State} {k : Nat} {c : Connection} (hk : k < S.heap.connections.size)
    (hturn : S.turns k = .reading) (hfetch : (S.heap.connection k).fetch? = some (none, c)) :
    Step C S [.departs k] ((S.onHeap (·.onConnection k fun _ => c.hangUp)).turn k .ended)

-- One thing after another.
inductive Steps (C : Conduct) (S : State) : List Event → State → Prop
  | refl : Steps C S [] S
  | step {es new : List Event} {T U : State} (h : Steps C S es T) (hstep : Step C T new U) :
    Steps C S (es ++ new) U

-- What can have happened since there were no channels.
inductive Run (C : Conduct) : List Event → State → Prop
  | start {w : World} (h : w.Unconnected) : Run C [] (.start w)
  | step {es new : List Event} {S T : State} (h : Run C es S) (hstep : Step C S new T) :
    Run C (es ++ new) T

section

variable {C : Conduct} {es more : List Event} {S T U : State}

theorem Steps.single {new : List Event} (h : Step C S new T) : Steps C S new T :=
  Steps.refl.step h

theorem Steps.trans (h : Steps C S es T) (h' : Steps C T more U) : Steps C S (es ++ more) U := by
  induction h' with
  | refl => rwa [List.append_nil]
  | step _ hstep ih =>
    rw [← List.append_assoc]
    exact ih.step hstep

theorem Run.steps (h : Run C es S) (h' : Steps C S more T) : Run C (es ++ more) T := by
  induction h' with
  | refl => rwa [List.append_nil]
  | step _ hstep ih =>
    rw [← List.append_assoc]
    exact ih.step hstep

theorem Steps.run {w : World} (h : Steps C (.start w) es S) (hw : w.Unconnected) : Run C es S :=
  (Run.start hw).steps h

end

end Channel

end Parlance
