import MiniC.Text.Ranges

/-!
# Blank characters

A character is blank when it has the Unicode property `White_Space`. Blanks separate lexemes
and are dropped from the end of an input.
-/

namespace MiniC.Text

/-- The code points of the property `White_Space`. -/
def blanks : Ranges :=
  [(0x09, 0x0d), (0x20, 0x20), (0x85, 0x85), (0xa0, 0xa0), (0x1680, 0x1680), (0x2000, 0x200a),
    (0x2028, 0x2029), (0x202f, 0x202f), (0x205f, 0x205f), (0x3000, 0x3000)]

/-- Whether `c` is blank. -/
def isBlank (c : Char) : Bool := blanks.contains c

/-- `text` without the blanks at its end. -/
def trimEnd (text : String) : String :=
  String.ofList ((text.toList.reverse.dropWhile isBlank).reverse)

end MiniC.Text
