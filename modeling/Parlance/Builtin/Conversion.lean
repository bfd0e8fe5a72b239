import Parlance.Builtin
import Parlance.Decimal.Reading
import Parlance.Heap.Display
import Parlance.Text.Letter
import Parlance.Text.Lowercase
import Parlance.Text.Search
import Parlance.Text.Space

namespace Parlance.Builtin

-- The number that a text stands for: an integer if it can be one, a double otherwise.
def numeral? (s : String) : Option Value :=
  ((Decimal.int? s).map Value.int).or ((Decimal.float? s).map Value.float)

def number : Value → Except Stop Value
  | .int n => .ok (.int n)
  | .float x => .ok (.float x)
  | .bool b => .ok (.int (if b then 1 else 0))
  | .str s =>
    match numeral? (Text.trim s) with
    | some v => .ok v
    | none => refuse (.notNumeral s)
  | v => refuse (.notConvertible v.ty)

-- Whether a text consists of letters.
def isWord (s : String) : Bool :=
  !s.isEmpty && s.toList.all Text.isLetter

def isNumber (s : String) : Bool :=
  (Decimal.float? (Text.trim s)).isSome

-- The pieces of a text: between separators, or between blanks if there is no separator.
def pieces (args : List Value) : Except Stop (List String) := do
  match args with
  | [text] => return Text.words (← text.asText "`split` text")
  | [text, separator] =>
    let text ← text.asText "`split` text"
    let separator ← separator.asText "`split` separator"
    if separator.isEmpty then refuse .emptySeparator
    return Text.pieces text separator
  | args => refuse (.arity split.name 1 2 args.length)

end Parlance.Builtin
