/-!
# Positions in a source text

A position is a line and a column, both counted from 1. Only the newline character ends a line;
every other character is one column wide.
-/

namespace MiniC

/-- A line and a column, both counted from 1. -/
structure Position where
  line : Nat
  column : Nat
  deriving DecidableEq, Repr

namespace Position

/-- The position of the first character of a text. -/
def start : Position := ⟨1, 1⟩

/-- The position after the character `c` at this position. -/
def next (pos : Position) (c : Char) : Position :=
  if c = '\n' then ⟨pos.line + 1, 1⟩ else ⟨pos.line, pos.column + 1⟩

/-- The position after the characters `cs` from this position on. -/
def advance (pos : Position) (cs : List Char) : Position := cs.foldl next pos

@[simp] theorem advance_nil (pos : Position) : pos.advance [] = pos := rfl

@[simp] theorem advance_cons (pos : Position) (c : Char) (cs : List Char) :
    pos.advance (c :: cs) = (pos.next c).advance cs := rfl

/-- The line grows by one for each newline passed. -/
theorem line_advance (pos : Position) (cs : List Char) :
    (pos.advance cs).line = pos.line + cs.count '\n' := by
  induction cs generalizing pos with
  | nil => simp
  | cons c cs ih =>
    rw [advance_cons, ih, List.count_cons]
    by_cases h : c = '\n'
    · rw [next, if_pos h, if_pos (by simpa using h), Nat.add_right_comm, Nat.add_assoc]
    · rw [next, if_neg h, if_neg (by simpa using h)]
      rfl

end Position

end MiniC
