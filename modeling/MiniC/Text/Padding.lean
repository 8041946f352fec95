/-!
# Padding to a width

Tables are set in columns of a fixed width, counted in code points. A text that is already as
wide as its column stays as it is: padding never cuts.
-/

namespace MiniC.Text

/-- Where a text stands in its column. -/
inductive Alignment where
  | left
  | right
  | center
  deriving DecidableEq, Repr

/-- `n` spaces. -/
def spaces (n : Nat) : String := String.ofList (List.replicate n ' ')

/-- The spaces before and after a text that is `gap` narrower than its column. An odd space
    goes after a centred text. -/
def Alignment.share : Alignment → Nat → Nat × Nat
  | .left, gap => (0, gap)
  | .right, gap => (gap, 0)
  | .center, gap => (gap / 2, gap - gap / 2)

/-- `text` set in a column of the given width. -/
def pad (alignment : Alignment) (width : Nat) (text : String) : String :=
  let margins := alignment.share (width - text.length)
  spaces margins.1 ++ text ++ spaces margins.2

end MiniC.Text
