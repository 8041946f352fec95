import MiniC.Token.Basic

/-!
# The lexical rules

A rule looks at a character and at what follows it, and answers how many of the following
characters belong to the same lexeme, or that no lexeme of its kind starts here. The count leaves
out the first character, so a lexeme is never empty. The rules are tried in a fixed order and the
first that answers wins: floats stand before integers and keywords before identifiers. A character
that no rule takes is a lexeme of its own.
-/

namespace MiniC.Token

/-- The number of characters after the first that belong to the lexeme, if one starts here. -/
abbrev Rule := Char → List Char → Option Nat

/-! ## 1. Character classes -/

/-- A letter or an underscore starts a name. The language's names are ASCII only. -/
def isNameStart (c : Char) : Bool := c.isAlpha || c = '_'

/-- Letters, digits and underscores continue a name. -/
def isNamePart (c : Char) : Bool := c.isAlphanum || c = '_'

/-- The length of the longest front of `cs` whose characters all satisfy `p`. -/
def run (p : Char → Bool) (cs : List Char) : Nat := (cs.takeWhile p).length

/-! ## 2. The rules -/

namespace Rule

/-- Digits, a point and at least one more digit. -/
def float : Rule := fun c cs =>
  if c.isDigit then
    let whole := run Char.isDigit cs
    match cs.drop whole with
    | '.' :: fraction =>
      let digits := run Char.isDigit fraction
      if digits = 0 then none else some (whole + 1 + digits)
    | _ => none
  else none

/-- Digits. -/
def integer : Rule := fun c cs =>
  if c.isDigit then some (run Char.isDigit cs) else none

/-- A quote up to the next quote. There are no escapes, and a quote that is never closed starts
    no string. -/
def string : Rule := fun c cs =>
  if c = '"' then (cs.findIdx? (· = '"')).map (· + 1) else none

/-- A name. -/
def identifier : Rule := fun c cs =>
  if isNameStart c then some (run isNamePart cs) else none

/-- A name that is reserved. The whole name counts, so `integer` holds no keyword. -/
def keyword : Rule := fun c cs =>
  (identifier c cs).filter fun n => String.ofList (c :: cs.take n) ∈ keywords

/-- An operator of two characters, else one of one character. -/
def operator : Rule := fun c cs =>
  if String.ofList (c :: cs.take 1) ∈ longOperators then some 1
  else if c ∈ shortOperators then some 0
  else none

/-- A separator. -/
def separator : Rule := fun c _ => if c ∈ separators then some 0 else none

end Rule

/-- The rules in the order in which they are tried. -/
def rules : List (Kind × Rule) :=
  [(.float, Rule.float), (.integer, Rule.integer), (.string, Rule.string),
    (.keyword, Rule.keyword), (.identifier, Rule.identifier), (.operator, Rule.operator),
    (.separator, Rule.separator)]

/-- The kind of the lexeme that starts with `c`, and how many characters of `cs` it takes. -/
def munch (c : Char) (cs : List Char) : Kind × Nat :=
  (rules.findSome? fun (kind, rule) => (rule c cs).map fun n => (kind, n)).getD (.mismatch, 0)

end MiniC.Token
