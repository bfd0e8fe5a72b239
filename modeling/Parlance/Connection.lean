namespace Parlance

-- One direction of a connection: the texts that have been written and not been read yet, and
-- whether the writer has gone.
structure Stream where
  texts : List String
  ended : Bool

namespace Stream

def fresh : Stream :=
  ⟨[], false⟩

-- An empty text is not written at all.
def write (s : Stream) (text : String) : Stream :=
  if text.isEmpty then s else { s with texts := s.texts ++ [text] }

def finish (s : Stream) : Stream :=
  { s with ended := true }

-- What a reader gets next: a text, or the end once the writer has gone. In between it waits.
def read? (s : Stream) : Option (Option String × Stream) :=
  match s.texts with
  | text :: texts => some (some text, { s with texts })
  | [] => if s.ended then some (none, s) else none

end Stream

-- A connection of a client to a server.
structure Connection where
  server : Nat
  requests : Stream
  replies : Stream

namespace Connection

def fresh (server : Nat) : Connection :=
  ⟨server, .fresh, .fresh⟩

-- The client writes a request, and the server a reply.
def post (c : Connection) (text : String) : Connection :=
  { c with requests := c.requests.write text }

def reply (c : Connection) (text : String) : Connection :=
  { c with replies := c.replies.write text }

-- The client goes, and the server does.
def leave (c : Connection) : Connection :=
  { c with requests := c.requests.finish }

def hangUp (c : Connection) : Connection :=
  { c with replies := c.replies.finish }

-- The server reads a request, and the client a reply.
def fetch? (c : Connection) : Option (Option String × Connection) :=
  c.requests.read?.map fun r => (r.1, { c with requests := r.2 })

def collect? (c : Connection) : Option (Option String × Connection) :=
  c.replies.read?.map fun r => (r.1, { c with replies := r.2 })

end Connection

end Parlance
