import Parlance.Text.Line

namespace Parlance

-- What is still to be read: lines that a text was split into in advance, or a text that is
-- read line by line from a terminal or a pipe.
inductive Input where
  | lines (pending : List String)
  | stream (rest : List Char)

-- The next line, if there is one, and what is left after it.
def Input.next : Input → Option String × Input
  | lines [] => (none, lines [])
  | lines (line :: rest) => (some line, lines rest)
  | stream [] => (none, stream [])
  | stream (c :: cs) =>
    let (line, rest) := Text.takeLine (c :: cs)
    (some (String.ofList (Text.dropBreaks line)), stream rest)

-- What is still to be read, and the text written so far.
structure Console where
  input : Input
  output : String

namespace Console

-- A console whose input is a given text.
def captured (input : String) : Console :=
  ⟨.lines (Text.lines input), ""⟩

-- A console that reads a text only as far as lines are asked for.
def stream (input : String) : Console :=
  ⟨.stream input.toList, ""⟩

def write (c : Console) (text : String) : Console :=
  { c with output := c.output ++ text }

-- The next line, if there is one.
def readLine (c : Console) : Option String × Console :=
  (c.input.next.1, { c with input := c.input.next.2 })

end Console

end Parlance
