import Mathlib
import MiniC.Proofs.Source.Blanking
import MiniC.Proofs.Token.Munch

/-!
# Lexemes under another spacing

The lexemes of a text can be written down again with other gaps between them, and they are found
again with their kinds. A lexeme that stands alone is found whole (`Token.munch_take`), and no
lexeme goes on into a gap. Only a quote looks further: one that is never closed is a lexeme of its
own as long as no quote comes after it, however far away. None does, for the lexemes after it are
parts of a text that holds none. Main statement: `Token.scan_respaced`.
-/

namespace MiniC.Token

/-! ## 1. One lexeme -/

/-- **A lexeme is found again when it stands alone**: it is still the longest front of the text, and
    the kinds of a word do not depend on the text. -/
theorem munch_take (c : Char) (cs : List Char) :
    munch c (cs.take (munch c cs).2) = munch c cs := by
  have hfound := foremost_munch c cs
  obtain ⟨word, hword⟩ : ∃ word, cs.take (munch c cs).2 = word := ⟨_, rfl⟩
  have hlength : word.length = (munch c cs).2 := by
    rw [← hword, List.length_take_of_le (munch_sound c cs).1]
  rw [hword] at hfound ⊢
  have halone : Foremost (c :: word) (munch c cs).1 (c :: word) :=
    ⟨List.prefix_refl _, hfound.admits, fun _ _ hfront _ => hfront.length_le, hfound.first⟩
  obtain ⟨hkind, hsame⟩ := (foremost_munch c word).unique halone
  have htaken : (word.take (munch c word).2).length = word.length :=
    congrArg List.length (List.cons.inj hsame).2
  rw [List.length_take_of_le (munch_sound c word).1, hlength] at htaken
  exact Prod.ext hkind htaken

/-- A character that no sign starts with starts no operator. -/
theorem Rule.operator_eq_none {c : Char} (h : c ∉ signs) (cs : List Char) :
    operator c cs = none := by
  cases hrule : operator c cs with
  | none => rfl
  | some n => exact absurd (mem_signs_of_admits_operator (sound_operator c cs n hrule).2) h

/-- A quote that is never closed is a lexeme of its own. -/
theorem munch_openQuote {cs : List Char} (h : '"' ∉ cs) : munch '"' cs = (.mismatch, 0) := by
  have hopen : cs.findIdx? (fun d => decide (d = '"')) = none := by
    rw [List.findIdx?_eq_none_iff]
    intro d hd
    exact decide_eq_false fun heq => h (heq ▸ hd)
  have hstring : Rule.string '"' cs = none := by
    rw [Rule.string, if_pos rfl, hopen]
    rfl
  have hoperator : Rule.operator '"' cs = none := Rule.operator_eq_none (by decide) cs
  have hseparator : Rule.separator '"' cs = none := if_neg (by decide)
  have hname : isNameStart '"' = false := by decide
  have hdigit : '"'.isDigit = false := by decide
  unfold munch rules
  simp [Rule.float_eq_none hdigit, Rule.integer_eq_none hdigit, hstring,
    Rule.keyword_eq_none hname, Rule.identifier_eq_none hname, hoperator, hseparator]

/-- **A lexeme of a text is found again before a gap**, provided that no quote comes after it where
    none came in the text. -/
theorem munch_take_append {c : Char} {cs after : List Char} (hafter : Ended after)
    (hquote : '"' ∉ cs → '"' ∉ after) :
    munch c (cs.take (munch c cs).2 ++ after) = munch c cs := by
  by_cases hc : c = '"'
  · subst hc
    by_cases hclosed : '"' ∈ cs
    · obtain ⟨body, rest, rfl, hbody⟩ := List.eq_append_cons_of_mem hclosed
      have hsplit : body ++ '"' :: rest = body ++ ['"'] ++ rest := by
        rw [List.append_assoc, List.singleton_append]
      rw [hsplit, munch_string hbody, List.take_left, munch_string hbody]
    · rw [munch_openQuote hclosed, List.take_zero, List.nil_append, munch_openQuote (hquote hclosed)]
  · rw [munch_severed hc hafter.severed, munch_take]

/-! ## 2. Where the characters come from -/

/-- A token is made of characters of the text. -/
theorem mem_of_mem_text {t : Token} {d : Char} (pos : Position) (cs : List Char)
    (ht : t ∈ scanFrom pos cs) (hd : d ∈ t.text.toList) : d ∈ cs := by
  fun_induction scanFrom pos cs with
  | case1 => cases ht
  | case2 pos c cs _ ih => exact List.mem_cons_of_mem c (ih ht)
  | case3 pos c cs _ found lexeme ih =>
    rcases List.mem_cons.mp ht with rfl | ht
    · rw [String.toList_ofList] at hd
      rcases List.mem_cons.mp hd with rfl | hd
      · exact List.mem_cons_self
      · exact List.mem_cons_of_mem c (List.mem_of_mem_take hd)
    · exact List.mem_cons_of_mem c (List.mem_of_mem_drop (ih ht))

theorem mem_weave {d : Char} {texts : List String} {gaps : List (List Char)}
    (h : d ∈ weave texts gaps) : (∃ text ∈ texts, d ∈ text.toList) ∨ ∃ gap ∈ gaps, d ∈ gap := by
  fun_induction weave texts gaps with
  | case1 text texts gap gaps ih =>
    rcases List.mem_append.mp h with h | h
    · rcases List.mem_append.mp h with h | h
      · exact .inl ⟨text, List.mem_cons_self, h⟩
      · exact .inr ⟨gap, List.mem_cons_self, h⟩
    · rcases ih h with ⟨found, hmem, hd⟩ | ⟨found, hmem, hd⟩
      · exact .inl ⟨found, List.mem_cons_of_mem _ hmem, hd⟩
      · exact .inr ⟨found, List.mem_cons_of_mem _ hmem, hd⟩
  | case2 => cases h

/-- No quote is made up: gaps hold none, and tokens only those of their text. -/
theorem quote_not_mem_weave {cs : List Char} (hcs : '"' ∉ cs) (pos : Position)
    {gaps : List (List Char)} (hblank : ∀ gap ∈ gaps, ∀ c ∈ gap, Text.isBlank c = true) :
    '"' ∉ weave ((scanFrom pos cs).map Token.text) gaps := by
  intro hmem
  rcases mem_weave hmem with ⟨text, htext, hd⟩ | ⟨gap, hgap, hd⟩
  · obtain ⟨t, ht, rfl⟩ := List.mem_map.mp htext
    exact hcs (mem_of_mem_text pos cs ht hd)
  · have hquote := hblank gap hgap '"' hd
    exact absurd hquote (by decide)

/-! ## 3. Scanning -/

/-- The lexemes of a text with other gaps between them are found in their order. The induction is on
    the scan of the text that they come from. -/
theorem lexemes_scanFrom_weave (pos : Position) (cs : List Char) (gaps : List (List Char))
    (hblank : ∀ gap ∈ gaps, ∀ c ∈ gap, Text.isBlank c = true)
    (hlength : gaps.length = (scanFrom pos cs).length) (hgaps : ∀ gap ∈ gaps.dropLast, gap ≠ [])
    (pos' : Position) :
    (scanFrom pos' (weave ((scanFrom pos cs).map Token.text) gaps)).map
        (fun t => (t.kind, t.text)) =
      (scanFrom pos cs).map fun t => (t.kind, t.text) := by
  fun_induction scanFrom pos cs generalizing gaps pos' with
  | case1 =>
    show (scanFrom pos' []).map _ = []
    rw [scanFrom_nil]
    rfl
  | case2 pos c cs _ ih => exact ih gaps hblank hlength hgaps pos'
  | case3 pos c cs hc found lexeme ih =>
    cases gaps with
    | nil => cases hlength
    | cons gap gaps =>
      obtain ⟨hgap, hblank⟩ := List.forall_mem_cons.mp hblank
      have hlength : gaps.length = (scanFrom (pos.advance lexeme) (cs.drop found.2)).length :=
        Nat.succ.inj hlength
      obtain ⟨rest, hrest⟩ : ∃ rest, weave ((scanFrom (pos.advance lexeme)
        (cs.drop found.2)).map Token.text) gaps = rest := ⟨_, rfl⟩
      have hended : Ended (gap ++ rest) := by
        rw [← hrest]
        exact ended_weave hgap (by rw [hlength, List.length_map]) hgaps
      -- all that comes after is gaps and lexemes of the rest of the text
      have hquote : '"' ∉ cs → '"' ∉ gap ++ rest := by
        intro hnone hmem
        rcases List.mem_append.mp hmem with hmem | hmem
        · exact absurd (hgap '"' hmem) (by decide)
        · rw [← hrest] at hmem
          exact quote_not_mem_weave (fun h => hnone (List.mem_of_mem_drop h)) _ hblank hmem
      have hfound : munch c (cs.take found.2 ++ (gap ++ rest)) =
          (found.1, (cs.take found.2).length) := by
        rw [munch_take_append hended hquote, List.length_take_of_le (munch_sound c cs).1]
      have hlater := ih gaps hblank hlength (gaps_tail hgaps)
      rw [hrest] at hlater
      rw [List.map_cons, weave, hrest, scanFrom_word String.toList_ofList
        (Bool.eq_false_iff.mpr hc) hgap hfound, List.map_cons, List.map_cons, hlater]

/-- **Under any spacing, the lexemes of a text are found again.** If the texts of the tokens are
    written in order, with blanks between any two and perhaps blanks before the first and after the
    last, then scanning gives tokens of the same kinds and texts. This holds of every text, also of
    one with quotes that are not closed and with characters that belong to no kind. -/
theorem scan_respaced {source respaced : String}
    (h : Spaced ((scan source).map Token.text) respaced.toList) :
    (scan respaced).map (fun t => (t.kind, t.text)) =
      (scan source).map fun t => (t.kind, t.text) := by
  obtain ⟨lead, gaps, hlead, hblank, hlength, hgaps, htext⟩ := h
  rw [List.length_map] at hlength
  have hlexemes := lexemes_scanFrom_weave Position.start source.toList gaps hblank hlength hgaps
    (Position.start.advance lead)
  unfold scan at htext ⊢
  rw [htext, scanFrom_blanks hlead, hlexemes]

/-- A point that belongs to no number, signs without a gap, a string, and a quote that is not
    closed. -/
def crowded : String := "1.<==\"a b\"&\"c"

/-- The same lexemes with gaps of different widths. -/
def loosened : String := "\t1 .  <= =\n\"a b\" & \" c"

/-- The gaps after the lexemes of `loosened`. -/
def looseGaps : List (List Char) := [[' '], [' ', ' '], [' '], ['\n'], [' '], [' '], [' '], []]

theorem scan_respaced_crowded :
    Spaced ((scan crowded).map Token.text) loosened.toList ∧
      (scan loosened).map (fun t => (t.kind, t.text)) =
        [(.integer, "1"), (.mismatch, "."), (.operator, "<="), (.operator, "="),
          (.string, "\"a b\""), (.mismatch, "&"), (.mismatch, "\""), (.identifier, "c")] := by
  have hscan : scan crowded = [⟨.integer, "1", ⟨1, 1⟩⟩, ⟨.mismatch, ".", ⟨1, 2⟩⟩,
      ⟨.operator, "<=", ⟨1, 3⟩⟩, ⟨.operator, "=", ⟨1, 5⟩⟩, ⟨.string, "\"a b\"", ⟨1, 6⟩⟩,
      ⟨.mismatch, "&", ⟨1, 11⟩⟩, ⟨.mismatch, "\"", ⟨1, 12⟩⟩, ⟨.identifier, "c", ⟨1, 13⟩⟩] := by
    cbv
  have hspaced : Spaced ((scan crowded).map Token.text) loosened.toList := by
    have hblank : looseGaps.all (·.all Text.isBlank) = true := by decide
    rw [hscan]
    refine ⟨['\t'], looseGaps, List.forall_mem_singleton.mpr (by decide), fun gap hgap => ?_, rfl,
      by decide, by cbv⟩
    exact List.all_eq_true.mp (List.all_eq_true.mp hblank gap hgap)
  exact ⟨hspaced, (scan_respaced hspaced).trans (by rw [hscan]; rfl)⟩

end MiniC.Token
