namespace Parlance.Text

-- A line without its line feed, and whether there was one: only the last line of a text
-- can lack it.
structure Line where
  text : List Char
  ended : Bool
  deriving DecidableEq

-- The lines of a text. `current` holds the characters of the current line, the last one
-- first. Nothing follows a final line feed.
def linesFrom (current : List Char) : List Char → List Line
  | [] => if current.isEmpty then [] else [⟨current.reverse, false⟩]
  | c :: cs =>
    if c = '\n' then ⟨current.reverse, true⟩ :: linesFrom [] cs
    else linesFrom (c :: current) cs

-- A line feed takes one carriage return in front of it along.
def Line.dropReturn (line : Line) : List Char :=
  if line.ended && line.text.getLast? == some '\r' then line.text.dropLast else line.text

-- The lines of a text, each without its line feed or carriage return and line feed.
def lines (s : String) : List String :=
  (linesFrom [] s.toList).map fun line => String.ofList line.dropReturn

-- The first line of a text, with its line feed if it has one, and what follows it.
def takeLine : List Char → List Char × List Char
  | [] => ([], [])
  | c :: cs =>
    if c = '\n' then ([c], cs)
    else
      let (line, rest) := takeLine cs
      (c :: line, rest)

-- A text without the line feeds and carriage returns at its end.
def dropBreaks (cs : List Char) : List Char :=
  (cs.reverse.dropWhile fun c => c == '\n' || c == '\r').reverse

end Parlance.Text
