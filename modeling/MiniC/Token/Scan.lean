import MiniC.Text.Blank
import MiniC.Token.Rule

/-!
# From text to tokens

Scanning walks over a text from its start. A blank is skipped; anything else starts a lexeme,
whose kind and length the lexical rules give. Every character is therefore either a skipped blank
or part of exactly one token, and scanning cannot fail.
-/

namespace MiniC.Token

/-- The tokens of `cs`, the first character of which stands at `pos`. -/
def scanFrom (pos : Position) : List Char → List Token
  | [] => []
  | c :: cs =>
    if Text.isBlank c then scanFrom (pos.next c) cs
    else
      let found := munch c cs
      let lexeme := c :: cs.take found.2
      ⟨found.1, String.ofList lexeme, pos⟩ :: scanFrom (pos.advance lexeme) (cs.drop found.2)
termination_by cs => cs.length
decreasing_by
  · exact Nat.lt_succ_self _
  · exact Nat.lt_succ_of_le (List.drop_suffix _ _).length_le

@[simp] theorem scanFrom_nil (pos : Position) : scanFrom pos [] = [] := by
  rw [scanFrom]

/-- A blank only moves the position. -/
theorem scanFrom_blank {c : Char} (h : Text.isBlank c = true) (pos : Position) (cs : List Char) :
    scanFrom pos (c :: cs) = scanFrom (pos.next c) cs := by
  rw [scanFrom, if_pos h]

/-- Any other character starts a token. -/
theorem scanFrom_lexeme {c : Char} (h : Text.isBlank c = false) (pos : Position)
    (cs : List Char) :
    scanFrom pos (c :: cs) =
      ⟨(munch c cs).1, String.ofList (c :: cs.take (munch c cs).2), pos⟩ ::
        scanFrom (pos.advance (c :: cs.take (munch c cs).2)) (cs.drop (munch c cs).2) := by
  rw [scanFrom, if_neg (by simp [h])]

/-- **The tokens of a source text, in order.** -/
def scan (source : String) : List Token := scanFrom Position.start source.toList

/-- The number of lines of a text: one more than its newlines. -/
def lineCount (source : String) : Nat := (Position.start.advance source.toList).line

end MiniC.Token
