import MiniC.Proofs.Source.Blanking

/-!
# Texts without comments

A comment opens with a slash and a slash or a star after it, outside strings. Removing the comments
of a text could bring such a pair together, or end a string that was open; it does neither, because
something always stays between what is on the two sides of a comment, and every quote that counts is
kept. So no comment opens in what is left, a text in which none opens is left alone, and removing
the comments twice is removing them once. Main statement: `Source.stripComments_removes_exactly`.
-/

namespace MiniC.Source

/-! ## 1. Where comments open -/

/-- **A comment opens somewhere outside strings.** A string runs from a quote to the next one or to
    the end of the text, so a place lies outside strings when an even number of quotes comes
    before it. -/
def HasOpener (text : List Char) : Prop :=
  ∃ before next after, text = before ++ '/' :: next :: after ∧ before.count '"' % 2 = 0 ∧
    (next = '/' ∨ next = '*')

/-- Whether a comment opens at the first character. -/
def opens : List Char → Bool
  | c :: next :: _ => c = '/' && (next = '/' || next = '*')
  | _ => false

/-- Whether a comment opens in the text, the start of which lies in a string if `quoted`. -/
def opensIn (quoted : Bool) : List Char → Bool
  | [] => false
  | c :: cs => (!quoted && opens (c :: cs)) || opensIn (quoted != (c = '"')) cs

theorem opens_iff {text : List Char} :
    opens text = true ↔ ∃ next after, text = '/' :: next :: after ∧ (next = '/' ∨ next = '*') := by
  match text with
  | [] | [c] => simp [opens]
  | c :: next :: after =>
    simp only [opens, Bool.and_eq_true, Bool.or_eq_true, decide_eq_true_eq, List.cons.injEq]
    constructor
    · rintro ⟨rfl, hnext⟩
      exact ⟨next, after, ⟨rfl, rfl, rfl⟩, hnext⟩
    · rintro ⟨next', after', ⟨rfl, rfl, rfl⟩, hnext⟩
      exact ⟨rfl, hnext⟩

/-- A place lies outside strings when the quotes before it, with the one that has opened a string
    before the text, are even in number. -/
theorem opensIn_iff (quoted : Bool) (text : List Char) :
    opensIn quoted text = true ↔
      ∃ before next after, text = before ++ '/' :: next :: after ∧
        (before.count '"' + quoted.toNat) % 2 = 0 ∧ (next = '/' ∨ next = '*') := by
  induction text generalizing quoted with
  | nil => simp [opensIn]
  | cons c cs ih =>
    have hparity : ∀ before : List Char,
        ((c :: before).count '"' + quoted.toNat) % 2 = 0 ↔
          (before.count '"' + (quoted != decide (c = '"')).toNat) % 2 = 0 := by
      intro before
      by_cases hc : c = '"'
      · rw [hc, List.count_cons_self]
        cases quoted
        · simp
        · simp
          omega
      · simp [hc]
    have hout : (!quoted) = true ↔ ([].count '"' + quoted.toNat) % 2 = 0 := by
      cases quoted <;> decide
    rw [opensIn, Bool.or_eq_true, Bool.and_eq_true, opens_iff, ih]
    constructor
    · rintro (⟨hplain, next, after, htext, hnext⟩ | ⟨before, next, after, rfl, hcount, hnext⟩)
      · exact ⟨[], next, after, htext, hout.mp hplain, hnext⟩
      · exact ⟨c :: before, next, after, rfl, (hparity before).mpr hcount, hnext⟩
    · rintro ⟨before, next, after, htext, hcount, hnext⟩
      cases before with
      | nil => exact .inl ⟨hout.mpr hcount, next, after, htext, hnext⟩
      | cons b before =>
        obtain ⟨rfl, rfl⟩ := List.cons.inj htext
        exact .inr ⟨before, next, after, rfl, (hparity before).mp hcount, hnext⟩

theorem hasOpener_iff {text : List Char} : HasOpener text ↔ opensIn false text = true := by
  rw [opensIn_iff]
  rfl

instance (text : List Char) : Decidable (HasOpener text) := decidable_of_iff _ hasOpener_iff.symm

/-! ## 2. Passing over a piece of text -/

theorem opens_of_ne {c : Char} (h : c ≠ '/') (cs : List Char) : opens (c :: cs) = false := by
  rw [Bool.eq_false_iff, ne_eq, opens_iff]
  rintro ⟨next, after, htext, -⟩
  exact h (List.cons.inj htext).1

/-- A quote opens a string or closes one. -/
theorem opensIn_quote (quoted : Bool) (cs : List Char) :
    opensIn quoted ('"' :: cs) = opensIn (!quoted) cs := by
  rw [opensIn, opens_of_ne (by decide), Bool.and_false, Bool.false_or]
  cases quoted <;> rfl

/-- No comment opens inside a string. -/
theorem opensIn_body {body : List Char} (h : '"' ∉ body) (cs : List Char) :
    opensIn true (body ++ cs) = opensIn true cs := by
  induction body with
  | nil => rfl
  | cons c body ih =>
    obtain ⟨hc, hbody⟩ := List.ne_and_not_mem_of_not_mem_cons h
    rw [List.cons_append, opensIn, decide_eq_false hc.symm]
    exact ih hbody

/-- No comment opens in what is left of a comment. -/
theorem opensIn_gap {gap : List Char} (h : ∀ c ∈ gap, c = '\n' ∨ c = ' ') (cs : List Char) :
    opensIn false (gap ++ cs) = opensIn false cs := by
  induction gap with
  | nil => rfl
  | cons c gap ih =>
    obtain ⟨hc, hgap⟩ := List.forall_mem_cons.mp h
    have hslash : c ≠ '/' := by rcases hc with rfl | rfl <;> decide
    have hquote : c ≠ '"' := by rcases hc with rfl | rfl <;> decide
    rw [List.cons_append, opensIn, opens_of_ne hslash, decide_eq_false hquote]
    exact ih hgap

/-! ## 3. Nothing opens in what is left -/

/-- A first character that is no slash is kept. -/
theorem head?_stripCode {c : Char} (h : c ≠ '/') (cs : List Char) :
    (stripCode (c :: cs)).head? = some c := by
  by_cases hquote : c = '"'
  · rw [hquote, stripCode]
    rfl
  · rw [stripCode]
    · rfl
    · exact hquote
    · exact fun _ hc _ => h hc
    · exact fun _ hc _ => h hc

/-- A slash that is kept comes before no slash and no star. -/
theorem opens_stripCode {c : Char} {cs : List Char} (h : opens (c :: cs) = false) :
    opens (c :: stripCode cs) = false := by
  rw [Bool.eq_false_iff, ne_eq, opens_iff] at h ⊢
  rintro ⟨next, after, htext, hnext⟩
  obtain ⟨rfl, hstripped⟩ := List.cons.inj htext
  cases cs with
  | nil => cases hstripped
  | cons d cs =>
    have hslash : d ≠ '/' := fun hd => h ⟨d, cs, rfl, .inl hd⟩
    have hhead := head?_stripCode hslash cs
    rw [hstripped, List.head?_cons, Option.some.injEq] at hhead
    exact h ⟨d, cs, rfl, hhead ▸ hnext⟩

/-- **No comment opens in what is left of a text.** -/
theorem opensIn_stripCode (cs : List Char) : opensIn false (stripCode cs) = false := by
  -- blanking goes over a whole string or comment at once, so its cases are the ones needed here
  fun_induction blankCode cs with
  | case1 => rfl
  | case2 cs ih =>
    rw [stripCode, opensIn_quote]
    rcases lengthUpTo_cases '"' cs with ⟨hopen, hlength⟩ | ⟨body, rest, rfl, hbody, hlength⟩
    · have hstrip := stripString_body hopen []
      have hpass := opensIn_body hopen []
      rw [List.append_nil] at hstrip hpass
      rw [hstrip, stripString, List.append_nil]
      exact hpass
    · rw [hlength, List.drop_length_add_append] at ih
      rw [stripString_body hbody, stripString, if_pos rfl]
      exact (opensIn_body hbody _).trans ((opensIn_quote true _).trans ih)
  | case3 cs ih =>
    rw [stripCode, stripLine_eq]
    exact ih
  | case4 cs ih =>
    have hgap := (isComment_block cs).eq_newline_or_space
    rw [stripCode, stripBlock_eq, if_neg (by decide), strippedBlock, List.append_cons,
      opensIn_gap hgap]
    exact ih
  | case5 c cs hquote hline hblock ih =>
    have hkeep : stripCode (c :: cs) = c :: stripCode cs := by
      rw [stripCode] <;> assumption
    have hopens : opens (c :: cs) = false := by
      rw [Bool.eq_false_iff, ne_eq, opens_iff]
      rintro ⟨next, after, htext, hnext⟩
      obtain ⟨rfl, rfl⟩ := List.cons.inj htext
      rcases hnext with rfl | rfl
      · exact hline _ rfl rfl
      · exact hblock _ rfl rfl
    rw [hkeep, opensIn, opens_stripCode hopens, decide_eq_false hquote]
    exact ih

/-! ## 4. Nothing else is removed -/

/-- **A text in which no comment opens is left alone**, from outside a string and from inside. -/
theorem strip_eq_self (cs : List Char) :
    (opensIn false cs = false → stripCode cs = cs) ∧
      (opensIn true cs = false → stripString cs = cs) := by
  induction cs with
  | nil => exact ⟨fun _ => rfl, fun _ => rfl⟩
  | cons c cs ih =>
    obtain ⟨hcode, hstring⟩ := ih
    refine ⟨fun h => ?_, fun h => ?_⟩
    · rw [opensIn, Bool.or_eq_false_iff] at h
      obtain ⟨hopens, hrest⟩ := h
      by_cases hquote : c = '"'
      · rw [decide_eq_true hquote] at hrest
        rw [hquote, stripCode, hstring hrest]
      · rw [decide_eq_false hquote] at hrest
        have hkeep : stripCode (c :: cs) = c :: stripCode cs := by
          rw [stripCode]
          · exact hquote
          · rintro after rfl rfl
            cases hopens
          · rintro after rfl rfl
            cases hopens
        rw [hkeep, hcode hrest]
    · rw [opensIn, Bool.or_eq_false_iff] at h
      obtain ⟨-, hrest⟩ := h
      rw [stripString]
      by_cases hquote : c = '"'
      · rw [decide_eq_true hquote] at hrest
        rw [if_pos hquote, hcode hrest]
      · rw [decide_eq_false hquote] at hrest
        rw [if_neg hquote, hstring hrest]

/-- The newlines of comments stay. -/
theorem Cleared.count_newlines {source stripped blanked : List Char}
    (h : Cleared source stripped blanked) : stripped.count '\n' = source.count '\n' := by
  induction h with
  | same => rfl
  | comment comment _ _ ih =>
    rw [List.count_append, List.count_append, comment.count_newlines, ih]
  | string _ _ ih => simp [ih]
  | plain _ _ ih => rw [List.count_cons, List.count_cons, ih]

/-- **Removing comments removes every comment and nothing else.** In what is left of a text no
    comment opens outside strings. Outside comments every character is kept, and of a comment what
    `IsComment` says is left of it: where the comments are blanked instead, the rest of the text is
    the same. A text is left as it is exactly when no comment opens in it, so a second removal
    changes nothing. The text keeps its newlines. -/
theorem stripComments_removes_exactly (source : String) :
    ¬ HasOpener (stripComments source).toList ∧
    Cleared source.toList (stripComments source).toList (blankComments source).toList ∧
    (stripComments source = source ↔ ¬ HasOpener source.toList) ∧
    stripComments (stripComments source) = stripComments source ∧
    (stripComments source).toList.count '\n' = source.toList.count '\n' := by
  have hleft : ∀ text : String, ¬ HasOpener (stripComments text).toList := by
    intro text
    rw [hasOpener_iff, stripComments, String.toList_ofList, opensIn_stripCode]
    exact Bool.false_ne_true
  have hsame : ∀ text : String, ¬ HasOpener text.toList → stripComments text = text := by
    intro text hnone
    rw [hasOpener_iff, Bool.not_eq_true] at hnone
    rw [stripComments, (strip_eq_self text.toList).1 hnone, String.ofList_toList]
  have hcleared :
      Cleared source.toList (stripComments source).toList (blankComments source).toList := by
    rw [stripComments, blankComments, String.toList_ofList, String.toList_ofList]
    exact cleared_code source.toList
  refine ⟨hleft source, hcleared, ⟨fun h => ?_, hsame source⟩, hsame _ (hleft source),
    hcleared.count_newlines⟩
  rw [← h]
  exact hleft source

end MiniC.Source
