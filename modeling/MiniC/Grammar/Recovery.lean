import MiniC.Token.Basic

/-!
# Recovering from a failed statement

After a failed statement the reader skips to where the statement seems to end: past the next
semicolon, or up to the next closing brace, which is left for the block around it.
-/

namespace MiniC

/-- The tokens from the end of a failed statement on. -/
def recover : List Token → List Token
  | [] => []
  | t :: ts =>
    if t.is .separator ";" then ts
    else if t.is .separator Token.closeBrace then t :: ts
    else recover ts

/-- Recovery only skips. -/
theorem recover_suffix (ts : List Token) : recover ts <:+ ts := by
  induction ts with
  | nil => exact List.suffix_refl []
  | cons t ts ih =>
    unfold recover
    split
    · exact List.suffix_cons t ts
    · split
      · exact List.suffix_refl _
      · exact ih.trans (List.suffix_cons t ts)

/-- **Recovery makes progress unless it starts at a closing brace.** -/
theorem length_recover_cons_le {t : Token} (h : t.is .separator Token.closeBrace = false)
    (ts : List Token) :
    (recover (t :: ts)).length ≤ ts.length := by
  unfold recover
  split
  · exact Nat.le_refl _
  · rw [if_neg (by simp [h])]
    exact (recover_suffix ts).length_le

/-- The number of tokens that recovery skips. -/
def recoveryLength (ts : List Token) : Nat := ts.length - (recover ts).length

end MiniC
