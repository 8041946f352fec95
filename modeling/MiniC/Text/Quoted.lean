import MiniC.Text.Extending
import MiniC.Text.Ignorable
import MiniC.Text.Unprintable

/-!
# Quoted texts

A quoted text stands between double quotes. A quote and a backslash inside it are escaped, and so
is every character that could not be read on a page: the common control characters by a letter,
all others by their code point in hexadecimal.
-/

namespace MiniC.Text

/-- Whether a character can be read inside a quoted text: it has a sign of its own, and a display
    shows it. -/
def isReadable (c : Char) : Bool :=
  !extending.contains c && !ignorable.contains c && !unprintable.contains c

/-- The code point of a character in hexadecimal. -/
def hex (c : Char) : String := String.ofList (Nat.toDigits 16 c.toNat)

/-- A character as it stands in a quoted text. -/
def escape (c : Char) : String :=
  match c with
  | '"' => "\\\""
  | '\\' => "\\\\"
  | '\n' => "\\n"
  | '\r' => "\\r"
  | '\t' => "\\t"
  | '\x00' => "\\0"
  | c => if isReadable c then String.singleton c else "\\u\x7b" ++ hex c ++ "\x7d"

/-- The text in quotes. -/
def quote (text : String) : String :=
  "\"" ++ String.join (text.toList.map escape) ++ "\""

end MiniC.Text
