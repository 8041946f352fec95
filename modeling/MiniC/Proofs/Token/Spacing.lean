import MiniC.Proofs.Token.Layout

/-!
# Words with gaps between them

Words that are written one after the other, with a gap between any two, are scanned back: the
tokens of the text are these words, each with the kind it has on its own. Main statement:
`Token.reads_scan`.
-/

namespace MiniC.Token

/-! ## 1. Spaced texts -/

/-- The text is the words in order, with blanks between any two of them and perhaps blanks before
    the first and after the last. -/
def Spaced (words : List String) (text : List Char) : Prop :=
  ∃ lead gaps, (∀ c ∈ lead, Text.isBlank c = true) ∧
    (∀ gap ∈ gaps, ∀ c ∈ gap, Text.isBlank c = true) ∧
    gaps.length = words.length ∧ (∀ gap ∈ gaps.dropLast, gap ≠ []) ∧
    text = lead ++ weave words gaps

/-- The kind of a word that stands alone. -/
def kindOf (word : String) : Kind :=
  match word.toList with
  | [] => .mismatch
  | c :: cs => (munch c cs).1

/-- The word belongs to one of the kinds of the language. -/
def IsLexeme (word : String) : Prop := ∃ kind : Kind, kind ≠ .mismatch ∧ kind.Fits word

/-- The tokens are these words with their kinds. -/
def Reads (ts : List Token) (words : List String) : Prop :=
  ts.map (fun t => (t.kind, t.text)) = words.map fun word => (kindOf word, word)

/-! ## 2. Scanning them -/

theorem Kind.ne_nil_of_admits {kind : Kind} {cs : List Char} (h : kind.Admits cs) : cs ≠ [] := by
  rintro rfl
  cases kind with
  | float =>
    obtain ⟨whole, fraction, heq, -⟩ := h
    simp at heq
  | integer => exact h.1 rfl
  | string =>
    obtain ⟨body, heq, -⟩ := h
    cases heq
  | keyword =>
    have hempty : String.ofList [] ∉ keywords := by decide
    exact hempty h
  | identifier =>
    obtain ⟨c, rest, heq, -⟩ := h
    cases heq
  | operator =>
    rcases h with hlong | ⟨c, -, heq⟩
    · exact absurd hlong (by decide)
    · cases heq
  | separator =>
    obtain ⟨c, -, heq⟩ := h
    cases heq
  | mismatch =>
    obtain ⟨c, heq⟩ := h
    cases heq

/-- A word starts with a visible character, and is found whole where a gap comes after it. -/
theorem Kind.Fits.munch_eq {kind : Kind} {word : String} (h : kind.Fits word)
    (hkind : kind ≠ .mismatch) :
    ∃ c cs, word.toList = c :: cs ∧ Text.isBlank c = false ∧
      ∀ after, Ended after → munch c (cs ++ after) = (kind, cs.length) := by
  cases hword : word.toList with
  | nil => exact absurd hword (Kind.ne_nil_of_admits h.admits)
  | cons c cs =>
    have hof : String.ofList (c :: cs) = word := by rw [← hword, String.ofList_toList]
    have hadmits := h.admits
    rw [hword] at hadmits
    refine ⟨c, cs, rfl, Kind.isBlank_eq_false hadmits hkind, fun after hafter => ?_⟩
    refine munch_word hadmits hkind (fun hname => ?_) hafter
    rw [hof]
    exact h.plain hname

theorem Kind.Fits.kindOf_eq {kind : Kind} {word : String} (h : kind.Fits word)
    (hkind : kind ≠ .mismatch) : kindOf word = kind := by
  obtain ⟨c, cs, hword, -, hmunch⟩ := h.munch_eq hkind
  have hend : Ended [] := fun b hb => absurd hb (by simp)
  have halone := hmunch [] hend
  rw [List.append_nil] at halone
  simp only [kindOf, hword, halone]

/-- Blanks only move the position. -/
theorem scanFrom_blanks {gap : List Char} (h : ∀ c ∈ gap, Text.isBlank c = true) (pos : Position)
    (cs : List Char) : scanFrom pos (gap ++ cs) = scanFrom (pos.advance gap) cs := by
  induction gap generalizing pos with
  | nil => rw [List.nil_append, Position.advance_nil]
  | cons b gap ih =>
    obtain ⟨hb, hgap⟩ := List.forall_mem_cons.mp h
    rw [List.cons_append, scanFrom_blank hb, ih hgap, Position.advance_cons]

/-- What follows a word of a spaced text is a gap, or nothing. -/
theorem ended_weave {words : List String} {gap : List Char} {gaps : List (List Char)}
    (hblank : ∀ c ∈ gap, Text.isBlank c = true) (hlength : gaps.length = words.length)
    (hgaps : ∀ g ∈ (gap :: gaps).dropLast, g ≠ []) : Ended (gap ++ weave words gaps) := by
  intro b hb
  cases gap with
  | cons c gap =>
    rw [List.cons_append, List.head?_cons, Option.mem_some] at hb
    exact hb ▸ hblank c List.mem_cons_self
  | nil =>
    -- only the last gap may be empty, so no word comes after it
    cases gaps with
    | nil =>
      have hwords : words = [] := List.eq_nil_of_length_eq_zero hlength.symm
      rw [hwords] at hb
      cases hb
    | cons g gaps =>
      rw [List.dropLast_cons_cons] at hgaps
      exact absurd rfl (hgaps [] List.mem_cons_self)

/-- The gaps after the first word. -/
theorem gaps_tail {gap : List Char} {gaps : List (List Char)}
    (h : ∀ g ∈ (gap :: gaps).dropLast, g ≠ []) : ∀ g ∈ gaps.dropLast, g ≠ [] := by
  intro g hg
  cases gaps with
  | nil => cases hg
  | cons g' gaps => exact h g (List.mem_cons_of_mem _ hg)

/-- **A word that is found whole is the next token**, and scanning goes on after its gap. -/
theorem scanFrom_word {word : String} {c : Char} {cs gap rest : List Char} {kind : Kind}
    (hword : word.toList = c :: cs) (hc : Text.isBlank c = false)
    (hgap : ∀ b ∈ gap, Text.isBlank b = true)
    (hfound : munch c (cs ++ (gap ++ rest)) = (kind, cs.length)) (pos : Position) :
    scanFrom pos (word.toList ++ gap ++ rest) =
      ⟨kind, word, pos⟩ :: scanFrom ((pos.advance (c :: cs)).advance gap) rest := by
  have hof : String.ofList (c :: cs) = word := by rw [← hword, String.ofList_toList]
  rw [hword, List.append_assoc, List.cons_append, scanFrom_lexeme hc, hfound, List.take_left,
    List.drop_left, hof, scanFrom_blanks hgap]

theorem reads_scanFrom_weave {words : List String} {gaps : List (List Char)}
    (hwords : ∀ word ∈ words, IsLexeme word)
    (hblank : ∀ gap ∈ gaps, ∀ c ∈ gap, Text.isBlank c = true)
    (hlength : gaps.length = words.length) (hgaps : ∀ gap ∈ gaps.dropLast, gap ≠ [])
    (pos : Position) : Reads (scanFrom pos (weave words gaps)) words := by
  induction words generalizing gaps pos with
  | nil =>
    cases gaps with
    | nil =>
      show Reads (scanFrom pos []) []
      rw [scanFrom_nil]
      rfl
    | cons gap gaps => cases hlength
  | cons word words ih =>
    cases gaps with
    | nil => cases hlength
    | cons gap gaps =>
      obtain ⟨⟨kind, hkind, hfits⟩, hwords⟩ := List.forall_mem_cons.mp hwords
      obtain ⟨hgap, hblank⟩ := List.forall_mem_cons.mp hblank
      obtain ⟨c, cs, hword, hc, hmunch⟩ := hfits.munch_eq hkind
      have hlength : gaps.length = words.length := Nat.succ.inj hlength
      have hfound := hmunch _ (ended_weave hgap hlength hgaps)
      have hrest := ih hwords hblank hlength (gaps_tail hgaps)
      unfold Reads at hrest ⊢
      rw [weave, scanFrom_word hword hc hgap hfound, List.map_cons, List.map_cons, hrest,
        hfits.kindOf_eq hkind]

/-- **Spaced words are scanned back.** -/
theorem reads_scan {words : List String} {source : String}
    (hwords : ∀ word ∈ words, IsLexeme word) (h : Spaced words source.toList) :
    Reads (scan source) words := by
  obtain ⟨lead, gaps, hlead, hblank, hlength, hgaps, htext⟩ := h
  unfold scan
  rw [htext, scanFrom_blanks hlead]
  exact reads_scanFrom_weave hwords hblank hlength hgaps _

/-! ## 3. Taking words apart -/

theorem reads_nil_iff {ts : List Token} : Reads ts [] ↔ ts = [] := by
  simp [Reads]

theorem reads_cons_iff {ts : List Token} {word : String} {words : List String} :
    Reads ts (word :: words) ↔
      ∃ t us, ts = t :: us ∧ t.is (kindOf word) word = true ∧ Reads us words := by
  simp [Reads, List.map_eq_cons_iff, is_iff]

theorem reads_append_iff {ts : List Token} {words words' : List String} :
    Reads ts (words ++ words') ↔ ∃ us vs, ts = us ++ vs ∧ Reads us words ∧ Reads vs words' := by
  unfold Reads
  rw [List.map_append, List.map_eq_append_iff]

end MiniC.Token
