namespace Parlance.Text

-- Whether some characters occur one after another in others.
def occursIn (part : List Char) : List Char → Bool
  | [] => part.isEmpty
  | c :: cs => part.isPrefixOf (c :: cs) || occursIn part cs

def contains (s part : String) : Bool :=
  occursIn part.toList s.toList

-- The pieces between the places where a separator stands. Those places do not overlap and
-- are found from the left. `run` holds the characters of the current piece, the last one
-- first, and `skip` is the number of characters that still belong to a separator.
def piecesFrom (separator run : List Char) : Nat → List Char → List (List Char)
  | _, [] => [run.reverse]
  | skip + 1, _ :: cs => piecesFrom separator run skip cs
  | 0, c :: cs =>
    if separator.isPrefixOf (c :: cs) then
      run.reverse :: piecesFrom separator [] (separator.length - 1) cs
    else
      piecesFrom separator (c :: run) 0 cs

-- The pieces of a text between the places where a separator stands.
def pieces (s separator : String) : List String :=
  (piecesFrom separator.toList [] 0 s.toList).map String.ofList

end Parlance.Text
