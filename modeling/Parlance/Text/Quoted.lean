import Parlance.Text.Printable

namespace Parlance.Text

-- The hexadecimal digits of a number.
def hex (n : Nat) : String :=
  String.ofList (Nat.toDigits 16 n)

-- A character in a quoted text that is read by people: what cannot be seen is written as
-- its code point.
def visibleChar (c : Char) : String :=
  match c with
  | '\x00' => "\\0"
  | '\t' => "\\t"
  | '\r' => "\\r"
  | '\n' => "\\n"
  | '\\' => "\\\\"
  | '"' => "\\\""
  | _ => if isPrintable c then c.toString else "\\u\x7b" ++ hex c.toNat ++ "\x7d"

-- A text in quotes, to be read by people.
def visible (s : String) : String :=
  "\"" ++ String.join (s.toList.map visibleChar) ++ "\""

-- A number as four hexadecimal digits.
def hex4 (n : Nat) : String :=
  let digits := hex n
  String.ofList (List.replicate (4 - digits.length) '0') ++ digits

-- A character in a JSON string: quotes, backslashes and the controls below the space are
-- escaped, nothing else is.
def jsonChar (c : Char) : String :=
  match c with
  | '"' => "\\\""
  | '\\' => "\\\\"
  | '\x08' => "\\b"
  | '\x0c' => "\\f"
  | '\n' => "\\n"
  | '\r' => "\\r"
  | '\t' => "\\t"
  | _ => if c.toNat < 0x20 then "\\u" ++ hex4 c.toNat else c.toString

-- A text as a JSON string.
def json (s : String) : String :=
  "\"" ++ String.join (s.toList.map jsonChar) ++ "\""

end Parlance.Text
