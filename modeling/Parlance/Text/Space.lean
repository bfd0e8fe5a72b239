namespace Parlance.Text

-- The characters with the Unicode property White_Space.
def isSpace (c : Char) : Bool :=
  let n := c.toNat
  (0x09 ≤ n && n ≤ 0x0D) || n == 0x20 || n == 0x85 || n == 0xA0 || n == 0x1680 ||
    (0x2000 ≤ n && n ≤ 0x200A) || n == 0x2028 || n == 0x2029 || n == 0x202F ||
    n == 0x205F || n == 0x3000

-- The longest prefix of blanks.
def leadingSpace (cs : List Char) : List Char :=
  cs.takeWhile isSpace

def trimStart (cs : List Char) : List Char :=
  cs.dropWhile isSpace

def trimEnd (cs : List Char) : List Char :=
  (trimStart cs.reverse).reverse

-- A text without the blanks at its ends.
def trim (s : String) : String :=
  String.ofList (trimEnd (trimStart s.toList))

-- The longest runs without a blank, in order. `run` holds the characters of the current
-- run, the last one first.
def wordsFrom (run : List Char) : List Char → List (List Char)
  | [] => if run.isEmpty then [] else [run.reverse]
  | c :: cs =>
    if isSpace c then
      if run.isEmpty then wordsFrom [] cs else run.reverse :: wordsFrom [] cs
    else
      wordsFrom (c :: run) cs

def words (s : String) : List String :=
  (wordsFrom [] s.toList).map String.ofList

end Parlance.Text
