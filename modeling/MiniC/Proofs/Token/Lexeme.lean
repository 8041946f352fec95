import MiniC.Token.Scan

/-!
# The languages of the lexical rules

Each kind of lexeme has a language (`Token.Kind.Admits`). A rule answers only with words of the
language of its kind, and never counts past the end of the text. In the other direction, a word of
a language that stands before a blank or at the end of a text is found whole and with its kind: no
rule tried earlier answers there, and none goes on into the gap.
-/

namespace MiniC

/-! ## 1. Characters by their numbers -/

theorem isDigit_iff_toNat {c : Char} : c.isDigit = true ↔ 48 ≤ c.toNat ∧ c.toNat ≤ 57 := by
  simp [Char.isDigit, UInt32.le_iff_toNat_le]

theorem isAlpha_iff_toNat {c : Char} :
    c.isAlpha = true ↔
      (65 ≤ c.toNat ∧ c.toNat ≤ 90) ∨ (97 ≤ c.toNat ∧ c.toNat ≤ 122) := by
  have hupper : c.isUpper = true ↔ 65 ≤ c.toNat ∧ c.toNat ≤ 90 := by
    show decide (c.val ≥ 'A'.val ∧ c.val ≤ 'Z'.val) = true ↔ _
    simp [UInt32.le_iff_toNat_le]
  have hlower : c.isLower = true ↔ 97 ≤ c.toNat ∧ c.toNat ≤ 122 := by
    show (decide (c.val ≥ 'a'.val) && decide (c.val ≤ 'z'.val)) = true ↔ _
    simp [UInt32.le_iff_toNat_le]
  show (c.isUpper || c.isLower) = true ↔ _
  rw [Bool.or_eq_true, hupper, hlower]

/-- Blanks lie outside the visible characters of ASCII. -/
theorem toNat_of_isBlank {c : Char} (h : Text.isBlank c = true) : c.toNat ≤ 32 ∨ 127 ≤ c.toNat := by
  obtain ⟨range, hmem, hlo, hhi⟩ := (Text.Ranges.contains_iff _ _).mp h
  have hranges : ∀ r ∈ Text.blanks, r.2 ≤ 32 ∨ 127 ≤ r.1 := by decide
  have hrange := hranges range hmem
  omega

theorem isBlank_eq_false_of_toNat {c : Char} (hlo : 32 < c.toNat) (hhi : c.toNat < 127) :
    Text.isBlank c = false := by
  rw [Bool.eq_false_iff]
  intro h
  have := toNat_of_isBlank h
  omega

namespace Token

theorem toNat_of_isNameStart {c : Char} (h : isNameStart c = true) :
    65 ≤ c.toNat ∧ c.toNat ≤ 122 := by
  rw [isNameStart, Bool.or_eq_true, decide_eq_true_eq, isAlpha_iff_toNat] at h
  rcases h with h | rfl
  · omega
  · decide

theorem toNat_of_isNamePart {c : Char} (h : isNamePart c = true) :
    48 ≤ c.toNat ∧ c.toNat ≤ 122 := by
  rw [isNamePart, Char.isAlphanum, Bool.or_eq_true, Bool.or_eq_true, decide_eq_true_eq,
    isAlpha_iff_toNat, isDigit_iff_toNat] at h
  rcases h with (h | h) | rfl
  · omega
  · omega
  · decide

theorem isDigit_eq_false_of_isNameStart {c : Char} (h : isNameStart c = true) :
    c.isDigit = false := by
  have hrange := toNat_of_isNameStart h
  rw [Bool.eq_false_iff]
  intro hc
  have hdigit := isDigit_iff_toNat.mp hc
  omega

/-! ## 2. The language of a kind -/

/-- One digit or more. -/
def IsDigits (cs : List Char) : Prop := cs ≠ [] ∧ ∀ c ∈ cs, c.isDigit = true

/-- **The words of a kind.** -/
def Kind.Admits : Kind → List Char → Prop
  | .float, cs => ∃ whole fraction, cs = whole ++ '.' :: fraction ∧ IsDigits whole ∧ IsDigits fraction
  | .integer, cs => IsDigits cs
  | .string, cs => ∃ body, cs = '"' :: (body ++ ['"']) ∧ '"' ∉ body
  | .keyword, cs => String.ofList cs ∈ keywords
  | .identifier, cs => ∃ c rest, cs = c :: rest ∧ isNameStart c = true ∧
      ∀ d ∈ rest, isNamePart d = true
  | .operator, cs => String.ofList cs ∈ longOperators ∨ ∃ c ∈ shortOperators, cs = [c]
  | .separator, cs => ∃ c ∈ separators, cs = [c]
  | .mismatch, cs => ∃ c, cs = [c]

/-! ## 3. What the rules answer with -/

/-- The rule stays inside the text and answers only with words of the kind. -/
def Rule.Sound (kind : Kind) (rule : Rule) : Prop :=
  ∀ c cs n, rule c cs = some n → n ≤ cs.length ∧ kind.Admits (c :: cs.take n)

theorem run_le_length (p : Char → Bool) (cs : List Char) : run p cs ≤ cs.length :=
  (List.takeWhile_prefix p).length_le

theorem take_run (p : Char → Bool) (cs : List Char) : cs.take (run p cs) = cs.takeWhile p :=
  (List.prefix_iff_eq_take.mp (List.takeWhile_prefix p)).symm

theorem of_mem_take_run {p : Char → Bool} {cs : List Char} {c : Char}
    (h : c ∈ cs.take (run p cs)) : p c = true := by
  rw [take_run] at h
  exact List.all_eq_true.mp List.all_takeWhile c h

namespace Rule

theorem sound_integer : Sound .integer integer := by
  intro c cs n h
  unfold integer at h
  by_cases hc : c.isDigit = true
  · rw [if_pos hc, Option.some.injEq] at h
    rw [← h]
    refine ⟨run_le_length _ _, List.cons_ne_nil _ _, ?_⟩
    exact List.forall_mem_cons.mpr ⟨hc, fun d hd => of_mem_take_run hd⟩
  · rw [if_neg hc] at h
    cases h

theorem sound_float : Sound .float float := by
  intro c cs n h
  unfold float at h
  by_cases hc : c.isDigit = true
  · rw [if_pos hc] at h
    simp only at h
    split at h
    case h_2 => cases h
    case h_1 fraction hdrop =>
      by_cases hdigits : run Char.isDigit fraction = 0
      · rw [if_pos hdigits] at h
        cases h
      · rw [if_neg hdigits, Option.some.injEq] at h
        obtain ⟨whole, hwhole⟩ : ∃ whole, cs.take (run Char.isDigit cs) = whole := ⟨_, rfl⟩
        have hlength : whole.length = run Char.isDigit cs := by
          rw [← hwhole, List.length_take_of_le (run_le_length _ _)]
        have hcs : cs = whole ++ '.' :: fraction := by
          rw [← hdrop, ← hwhole, List.take_append_drop]
        have hn : n = whole.length + (run Char.isDigit fraction + 1) := by omega
        have htake : cs.take n = whole ++ '.' :: fraction.take (run Char.isDigit fraction) := by
          rw [hcs, hn, List.take_length_add_append, List.take_succ_cons]
        have hfraction := run_le_length Char.isDigit fraction
        have hbound : n ≤ cs.length := by
          rw [hn, hcs, List.length_append, List.length_cons]
          omega
        refine ⟨hbound, c :: whole, fraction.take (run Char.isDigit fraction), ?_, ?_, ?_⟩
        · rw [htake, List.cons_append]
        · refine ⟨List.cons_ne_nil _ _, List.forall_mem_cons.mpr ⟨hc, fun d hd => ?_⟩⟩
          rw [← hwhole] at hd
          exact of_mem_take_run hd
        · refine ⟨fun hnil => hdigits ?_, fun d hd => of_mem_take_run hd⟩
          have hzero := congrArg List.length hnil
          rwa [List.length_take_of_le hfraction] at hzero
  · rw [if_neg hc] at h
    cases h

theorem sound_string : Sound .string string := by
  intro c cs n h
  unfold string at h
  by_cases hc : c = '"'
  · rw [if_pos hc] at h
    obtain ⟨i, hi, rfl⟩ := Option.map_eq_some_iff.mp h
    obtain ⟨hlt, hquote, hbody⟩ := List.findIdx?_eq_some_iff_getElem.mp hi
    rw [decide_eq_true_eq] at hquote
    have hlast : cs.take (i + 1) = cs.take i ++ ['"'] := by
      rw [List.take_succ_eq_append_getElem hlt, hquote]
    refine ⟨hlt, cs.take i, ?_, fun hmem => ?_⟩
    · rw [hc, hlast]
    · obtain ⟨j, hj, hget⟩ := List.getElem_of_mem hmem
      rw [List.length_take] at hj
      rw [List.getElem_take] at hget
      exact hbody j (by omega) (decide_eq_true hget)
  · rw [if_neg hc] at h
    cases h

theorem sound_identifier : Sound .identifier identifier := by
  intro c cs n h
  unfold identifier at h
  by_cases hc : isNameStart c = true
  · rw [if_pos hc, Option.some.injEq] at h
    rw [← h]
    exact ⟨run_le_length _ _, c, _, rfl, hc, fun d hd => of_mem_take_run hd⟩
  · rw [if_neg hc] at h
    cases h

theorem sound_keyword : Sound .keyword keyword := by
  intro c cs n h
  unfold keyword at h
  obtain ⟨hname, hmem⟩ := Option.filter_eq_some_iff.mp h
  have hbound := (sound_identifier c cs n hname).1
  have hword : String.ofList (c :: cs.take n) ∈ keywords := of_decide_eq_true hmem
  exact ⟨hbound, hword⟩

theorem sound_operator : Sound .operator operator := by
  intro c cs n h
  unfold operator at h
  by_cases hlong : String.ofList (c :: cs.take 1) ∈ longOperators
  · rw [if_pos hlong, Option.some.injEq] at h
    rw [← h]
    have htwo : ∀ s ∈ longOperators, s.toList.length = 2 := by decide
    have hlength := htwo _ hlong
    rw [String.toList_ofList, List.length_cons, List.length_take] at hlength
    exact ⟨by omega, .inl hlong⟩
  · rw [if_neg hlong] at h
    by_cases hshort : c ∈ shortOperators
    · rw [if_pos hshort, Option.some.injEq] at h
      rw [← h]
      exact ⟨Nat.zero_le _, .inr ⟨c, hshort, rfl⟩⟩
    · rw [if_neg hshort] at h
      cases h

theorem sound_separator : Sound .separator separator := by
  intro c cs n h
  unfold separator at h
  by_cases hmem : c ∈ separators
  · rw [if_pos hmem, Option.some.injEq] at h
    rw [← h]
    exact ⟨Nat.zero_le _, c, hmem, rfl⟩
  · rw [if_neg hmem] at h
    cases h

end Rule

theorem sound_of_mem_rules {kind : Kind} {rule : Rule} (h : (kind, rule) ∈ rules) :
    Rule.Sound kind rule := by
  simp only [rules, List.mem_cons, Prod.mk.injEq, List.not_mem_nil, or_false] at h
  rcases h with ⟨rfl, rfl⟩ | ⟨rfl, rfl⟩ | ⟨rfl, rfl⟩ | ⟨rfl, rfl⟩ | ⟨rfl, rfl⟩ | ⟨rfl, rfl⟩ |
    ⟨rfl, rfl⟩
  · exact Rule.sound_float
  · exact Rule.sound_integer
  · exact Rule.sound_string
  · exact Rule.sound_keyword
  · exact Rule.sound_identifier
  · exact Rule.sound_operator
  · exact Rule.sound_separator

/-- An answer is the answer of one of the rules tried. -/
theorem exists_rule_of_findSome? {c : Char} {cs : List Char} (entries : List (Kind × Rule))
    {found : Kind × Nat}
    (h : (entries.findSome? fun (kind, rule) => (rule c cs).map fun n => (kind, n)) = some found) :
    ∃ rule, (found.1, rule) ∈ entries ∧ rule c cs = some found.2 := by
  obtain ⟨⟨kind, rule⟩, hmem, hrule⟩ := List.exists_of_findSome?_eq_some h
  obtain ⟨n, hn, rfl⟩ := Option.map_eq_some_iff.mp hrule
  exact ⟨rule, hmem, hn⟩

/-- **A lexeme is a word of its kind and lies inside the text.** -/
theorem munch_sound (c : Char) (cs : List Char) :
    (munch c cs).2 ≤ cs.length ∧ (munch c cs).1.Admits (c :: cs.take (munch c cs).2) := by
  unfold munch
  cases hfind : rules.findSome? fun (kind, rule) => (rule c cs).map fun n => (kind, n) with
  | none => exact ⟨Nat.zero_le _, c, rfl⟩
  | some found =>
    obtain ⟨rule, hmem, hrule⟩ := exists_rule_of_findSome? _ hfind
    exact sound_of_mem_rules hmem c cs found.2 hrule

/-- The word is one of the kind, and a name is not a reserved word. -/
structure Kind.Fits (kind : Kind) (word : String) : Prop where
  admits : kind.Admits word.toList
  plain : kind = .identifier → word ∉ keywords

/-- Keywords are tried before names, so no lexeme of a name is reserved. -/
theorem munch_identifier_plain {c : Char} {cs : List Char} (h : (munch c cs).1 = .identifier) :
    String.ofList (c :: cs.take (munch c cs).2) ∉ keywords := by
  have hsplit : rules = rules.take 4 ++ rules.drop 4 := rfl
  unfold munch at h ⊢
  rw [hsplit, List.findSome?_append] at h ⊢
  cases hearlier : (rules.take 4).findSome? fun (kind, rule) =>
      (rule c cs).map fun n => (kind, n) with
  | some found =>
    obtain ⟨rule, hmem, -⟩ := exists_rule_of_findSome? _ hearlier
    rw [hearlier, Option.some_or, Option.getD_some] at h
    simp [rules, h] at hmem
  | none =>
    have hkeyword : Rule.keyword c cs = none := by
      have hnone := List.findSome?_eq_none_iff.mp hearlier (.keyword, Rule.keyword) (by simp [rules])
      simpa using hnone
    rw [hearlier, Option.none_or] at h
    rw [Option.none_or]
    cases hlater : (rules.drop 4).findSome? fun (kind, rule) =>
        (rule c cs).map fun n => (kind, n) with
    | none =>
      rw [hlater] at h
      cases h
    | some found =>
      obtain ⟨rule, hmem, hrule⟩ := exists_rule_of_findSome? _ hlater
      rw [hlater, Option.getD_some] at h
      have hname : Rule.identifier c cs = some found.2 := by
        simp [rules, h] at hmem
        rwa [← hmem]
      rw [Rule.keyword, hname, Option.filter_some] at hkeyword
      intro hreserved
      rw [Option.getD_some] at hreserved
      rw [if_pos (decide_eq_true hreserved)] at hkeyword
      cases hkeyword

theorem fits_of_mem_scanFrom {t : Token} (pos : Position) (cs : List Char)
    (h : t ∈ scanFrom pos cs) : t.kind.Fits t.text := by
  fun_induction scanFrom pos cs with
  | case1 => cases h
  | case2 pos c cs _ ih => exact ih h
  | case3 pos c cs _ found lexeme ih =>
    rcases List.mem_cons.mp h with rfl | h
    · refine ⟨?_, munch_identifier_plain⟩
      rw [String.toList_ofList]
      exact (munch_sound c cs).2
    · exact ih h

/-- **The text of a token is a word of its kind.** -/
theorem fits_of_mem_scan {source : String} {t : Token} (h : t ∈ scan source) :
    t.kind.Fits t.text :=
  fits_of_mem_scanFrom _ _ h

/-- The first rule that answers decides. -/
theorem munch_of_rule {kind : Kind} {rule : Rule} {earlier later : List (Kind × Rule)} {c : Char}
    {cs : List Char} {n : Nat} (hrules : rules = earlier ++ (kind, rule) :: later)
    (hearlier : ∀ entry ∈ earlier, entry.2 c cs = none) (hrule : rule c cs = some n) :
    munch c cs = (kind, n) := by
  have hnone : earlier.findSome? (fun (kind, rule) => (rule c cs).map fun n => (kind, n)) = none := by
    rw [List.findSome?_eq_none_iff]
    intro entry hentry
    simp [hearlier entry hentry]
  unfold munch
  rw [hrules, List.findSome?_append, hnone, Option.none_or]
  simp [hrule]

/-! ## 4. Words before a gap -/

/-- Nothing comes, or a blank. -/
def Ended (after : List Char) : Prop := ∀ b ∈ after.head?, Text.isBlank b = true

/-- A run ends with its word when what comes after does not belong to it. -/
theorem run_append {p : Char → Bool} {cs after : List Char} (hcs : ∀ c ∈ cs, p c = true)
    (hafter : ∀ b ∈ after.head?, p b = false) : run p (cs ++ after) = cs.length := by
  rw [run, List.takeWhile_append_of_pos hcs]
  cases after with
  | nil => simp
  | cons b after =>
    have hb : p b = false := hafter b rfl
    simp [hb]

theorem Ended.isDigit {after : List Char} (h : Ended after) :
    ∀ b ∈ after.head?, b.isDigit = false := by
  intro b hb
  have hblank := toNat_of_isBlank (h b hb)
  rw [Bool.eq_false_iff]
  intro hdigit
  have := isDigit_iff_toNat.mp hdigit
  omega

theorem Ended.isNamePart {after : List Char} (h : Ended after) :
    ∀ b ∈ after.head?, isNamePart b = false := by
  intro b hb
  have hblank := toNat_of_isBlank (h b hb)
  rw [Bool.eq_false_iff]
  intro hpart
  have := toNat_of_isNamePart hpart
  omega

namespace Rule

variable {c : Char} {cs after : List Char}

theorem float_eq_none (h : c.isDigit = false) (cs : List Char) : float c cs = none := by
  simp [float, h]

theorem integer_eq_none (h : c.isDigit = false) (cs : List Char) : integer c cs = none := by
  simp [integer, h]

theorem string_eq_none (h : c ≠ '"') (cs : List Char) : string c cs = none := if_neg h

theorem identifier_eq_none (h : isNameStart c = false) (cs : List Char) :
    identifier c cs = none := by
  simp [identifier, h]

theorem keyword_eq_none (h : isNameStart c = false) (cs : List Char) : keyword c cs = none := by
  rw [keyword, identifier_eq_none h]
  rfl

/-- Digits before a gap are no float: there is no point after them. -/
theorem float_digits (hcs : ∀ d ∈ cs, d.isDigit = true) (hafter : Ended after) :
    float c (cs ++ after) = none := by
  unfold float
  by_cases hc : c.isDigit = true
  · rw [if_pos hc, run_append hcs hafter.isDigit]
    simp only [List.drop_left]
    split
    case h_1 fraction =>
      have hpoint : Text.isBlank '.' = true := hafter '.' rfl
      exact absurd hpoint (by decide)
    case h_2 => rfl
  · exact if_neg hc

theorem integer_digits (hc : c.isDigit = true) (hcs : ∀ d ∈ cs, d.isDigit = true)
    (hafter : Ended after) : integer c (cs ++ after) = some cs.length := by
  rw [integer, if_pos hc, run_append hcs hafter.isDigit]

theorem float_digits_point {whole fraction : List Char} (hc : c.isDigit = true)
    (hwhole : ∀ d ∈ whole, d.isDigit = true) (hfraction : IsDigits fraction)
    (hafter : Ended after) :
    float c (whole ++ '.' :: fraction ++ after) = some (whole ++ '.' :: fraction).length := by
  have hpoint : run Char.isDigit (whole ++ '.' :: (fraction ++ after)) = whole.length :=
    run_append hwhole fun b hb => by
      cases hb
      decide
  have hdigits : run Char.isDigit (fraction ++ after) = fraction.length :=
    run_append hfraction.2 hafter.isDigit
  have hpositive : fraction.length ≠ 0 := fun h => hfraction.1 (List.eq_nil_of_length_eq_zero h)
  rw [List.append_assoc, List.cons_append, float, if_pos hc]
  simp only [hpoint, List.drop_left, hdigits, if_neg hpositive, List.length_append,
    List.length_cons, Option.some.injEq]
  omega

theorem string_quoted {body : List Char} (hbody : '"' ∉ body) (after : List Char) :
    string '"' (body ++ ['"'] ++ after) = some (body ++ ['"']).length := by
  have hnone : body.findIdx? (fun d => decide (d = '"')) = none := by
    rw [List.findIdx?_eq_none_iff]
    intro d hd
    exact decide_eq_false fun h => hbody (h ▸ hd)
  have hhere : ('"' :: after).findIdx? (fun d => decide (d = '"')) = some 0 := by
    rw [List.findIdx?_cons]
    rfl
  rw [string, if_pos rfl, List.append_assoc, List.findIdx?_append, hnone, List.singleton_append,
    hhere]
  simp

theorem identifier_name (hc : isNameStart c = true) (hcs : ∀ d ∈ cs, isNamePart d = true)
    (hafter : Ended after) : identifier c (cs ++ after) = some cs.length := by
  rw [identifier, if_pos hc, run_append hcs hafter.isNamePart]

theorem keyword_name (hc : isNameStart c = true) (hcs : ∀ d ∈ cs, isNamePart d = true)
    (hafter : Ended after) :
    keyword c (cs ++ after) =
      if String.ofList (c :: cs) ∈ keywords then some cs.length else none := by
  rw [keyword, identifier_name hc hcs hafter, Option.filter_some, List.take_left]
  simp

/-- A long operator is taken at once, whatever comes after it. -/
theorem operator_long (h : String.ofList (c :: cs) ∈ longOperators) (after : List Char) :
    operator c (cs ++ after) = some cs.length := by
  have htwo : ∀ s ∈ longOperators, s.toList.length = 2 := by decide
  have hone : cs.length = 1 := by
    have hlength := htwo _ h
    rwa [String.toList_ofList, List.length_cons, Nat.succ_inj] at hlength
  have htake : (cs ++ after).take 1 = cs := by
    rw [← hone, List.take_left]
  rw [operator, htake, if_pos h, hone]

/-- A short operator before a gap is not the first half of a long one. -/
theorem operator_short (hc : c ∈ shortOperators) (hafter : Ended after) :
    operator c after = some 0 := by
  have hlong : String.ofList (c :: after.take 1) ∉ longOperators := by
    intro hmem
    have hvisible : ∀ s ∈ longOperators, s.toList.tail.any (fun b => !Text.isBlank b) = true := by
      decide
    have hsecond := hvisible _ hmem
    rw [String.toList_ofList, List.tail_cons] at hsecond
    cases after with
    | nil => cases hsecond
    | cons b after =>
      have hblank : Text.isBlank b = true := hafter b rfl
      simp [hblank] at hsecond
  rw [operator, if_neg hlong, if_pos hc]

/-- No operator starts as a separator does. -/
theorem operator_separator (hc : c ∈ separators) (cs : List Char) : operator c cs = none := by
  have hlong : String.ofList (c :: cs.take 1) ∉ longOperators := by
    intro hmem
    have hall : longOperators.all (·.toList.head?.all (· ∉ separators)) = true := by decide
    have hfirst := List.all_eq_true.mp hall _ hmem
    rw [String.toList_ofList, List.head?_cons, Option.all_some] at hfirst
    exact of_decide_eq_true hfirst hc
  have hshort : c ∉ shortOperators := by
    have hall : separators.all (· ∉ shortOperators) = true := by decide
    exact of_decide_eq_true (List.all_eq_true.mp hall c hc)
  rw [operator, if_neg hlong, if_neg hshort]

end Rule

/-- The rules tried before those for names take no first character of a name. -/
theorem rules_eq_none_of_isNameStart {c : Char} (h : isNameStart c = true) (cs : List Char) :
    ∀ entry ∈ rules.take 3, entry.2 c cs = none := by
  have hdigit := isDigit_eq_false_of_isNameStart h
  have hquote : c ≠ '"' := by
    rintro rfl
    exact absurd h (by decide)
  simp [rules, Rule.float_eq_none hdigit, Rule.integer_eq_none hdigit, Rule.string_eq_none hquote]

/-- The characters that operators and separators start with. -/
def signs : List Char := shortOperators ++ ['&', '|'] ++ separators

theorem of_mem_signs {c : Char} (h : c ∈ signs) :
    c.isDigit = false ∧ c ≠ '"' ∧ isNameStart c = false ∧ Text.isBlank c = false := by
  have hall : signs.all (fun d =>
      d.isDigit = false ∧ d ≠ '"' ∧ isNameStart d = false ∧ Text.isBlank d = false) = true := by
    decide
  exact of_decide_eq_true (List.all_eq_true.mp hall c h)

/-- The rules tried before those for operators and separators take none of their characters. -/
theorem rules_eq_none_of_sign {c : Char} (h : c ∈ signs) (cs : List Char) :
    ∀ entry ∈ rules.take 5, entry.2 c cs = none := by
  obtain ⟨hdigit, hquote, hname, -⟩ := of_mem_signs h
  simp [rules, Rule.float_eq_none hdigit, Rule.integer_eq_none hdigit, Rule.string_eq_none hquote,
    Rule.keyword_eq_none hname, Rule.identifier_eq_none hname]

theorem mem_signs_of_admits_operator {c : Char} {cs : List Char}
    (h : Kind.operator.Admits (c :: cs)) : c ∈ signs := by
  rcases h with hlong | ⟨d, hd, heq⟩
  · have hall : longOperators.all (·.toList.head?.all (· ∈ signs)) = true := by decide
    have hfirst := List.all_eq_true.mp hall _ hlong
    rw [String.toList_ofList, List.head?_cons, Option.all_some] at hfirst
    exact of_decide_eq_true hfirst
  · obtain ⟨rfl, -⟩ := List.cons.inj heq
    exact List.mem_append_left _ (List.mem_append_left _ hd)

theorem mem_signs_of_mem_separators {c : Char} (h : c ∈ separators) : c ∈ signs :=
  List.mem_append_right _ h

/-- Keywords are names. -/
theorem Kind.admits_identifier_of_keyword {cs : List Char} (h : Kind.keyword.Admits cs) :
    Kind.identifier.Admits cs := by
  have hnames : ∀ s ∈ keywords, (s.toList.head?.any isNameStart && s.toList.all isNamePart) = true := by
    decide
  have hname := hnames _ h
  rw [String.toList_ofList, Bool.and_eq_true] at hname
  cases cs with
  | nil => cases hname.1
  | cons c cs =>
    have hall := List.all_eq_true.mp hname.2
    exact ⟨c, cs, rfl, hname.1, fun d hd => hall d (List.mem_cons_of_mem _ hd)⟩

/-- No word starts with a blank. -/
theorem Kind.isBlank_eq_false {kind : Kind} {c : Char} {cs : List Char}
    (hword : kind.Admits (c :: cs)) (hkind : kind ≠ .mismatch) : Text.isBlank c = false := by
  have hdigits : ∀ {ds : List Char}, IsDigits (c :: ds) → Text.isBlank c = false := by
    intro ds h
    have hrange := isDigit_iff_toNat.mp (h.2 c List.mem_cons_self)
    exact isBlank_eq_false_of_toNat (by omega) (by omega)
  have hname : Kind.identifier.Admits (c :: cs) → Text.isBlank c = false := by
    rintro ⟨d, rest, heq, hd, -⟩
    obtain ⟨rfl, -⟩ := List.cons.inj heq
    have hrange := toNat_of_isNameStart hd
    exact isBlank_eq_false_of_toNat (by omega) (by omega)
  cases kind with
  | float =>
    obtain ⟨whole, fraction, heq, hwhole, -⟩ := hword
    cases whole with
    | nil => exact absurd rfl hwhole.1
    | cons d whole =>
      obtain ⟨rfl, -⟩ := List.cons.inj heq
      exact hdigits hwhole
  | integer => exact hdigits hword
  | string =>
    obtain ⟨body, heq, -⟩ := hword
    obtain ⟨rfl, -⟩ := List.cons.inj heq
    decide
  | keyword => exact hname (admits_identifier_of_keyword hword)
  | identifier => exact hname hword
  | operator => exact (of_mem_signs (mem_signs_of_admits_operator hword)).2.2.2
  | separator =>
    obtain ⟨d, hd, heq⟩ := hword
    obtain ⟨rfl, -⟩ := List.cons.inj heq
    exact (of_mem_signs (mem_signs_of_mem_separators hd)).2.2.2
  | mismatch => exact absurd rfl hkind

/-- **A word before a gap is found whole and with its kind.** -/
theorem munch_word {kind : Kind} {c : Char} {cs after : List Char} (hword : kind.Admits (c :: cs))
    (hkind : kind ≠ .mismatch) (hplain : kind = .identifier → String.ofList (c :: cs) ∉ keywords)
    (hafter : Ended after) : munch c (cs ++ after) = (kind, cs.length) := by
  cases kind with
  | float =>
    obtain ⟨whole, fraction, heq, ⟨hwhole, hdigits⟩, hfraction⟩ := hword
    cases whole with
    | nil => exact absurd rfl hwhole
    | cons d whole =>
      rw [List.cons_append, List.cons.injEq] at heq
      obtain ⟨rfl, rfl⟩ := heq
      obtain ⟨hc, hwhole⟩ := List.forall_mem_cons.mp hdigits
      have hearlier : ∀ entry ∈ rules.take 0, entry.2 c (whole ++ '.' :: fraction ++ after) = none :=
        fun _ h => absurd h List.not_mem_nil
      exact munch_of_rule rfl hearlier (Rule.float_digits_point hc hwhole hfraction hafter)
  | integer =>
    obtain ⟨hc, hcs⟩ := List.forall_mem_cons.mp hword.2
    have hearlier : ∀ entry ∈ rules.take 1, entry.2 c (cs ++ after) = none := by
      simp [rules, Rule.float_digits hcs hafter]
    exact munch_of_rule rfl hearlier (Rule.integer_digits hc hcs hafter)
  | string =>
    obtain ⟨body, heq, hbody⟩ := hword
    rw [List.cons.injEq] at heq
    obtain ⟨rfl, rfl⟩ := heq
    have hearlier : ∀ entry ∈ rules.take 2, entry.2 '"' (body ++ ['"'] ++ after) = none := by
      simp [rules, Rule.float_eq_none, Rule.integer_eq_none]
    exact munch_of_rule rfl hearlier (Rule.string_quoted hbody after)
  | keyword =>
    obtain ⟨_, _, heq, hc, hcs⟩ := Kind.admits_identifier_of_keyword hword
    obtain ⟨rfl, rfl⟩ := List.cons.inj heq
    have hreserved : String.ofList (c :: cs) ∈ keywords := hword
    have hrule := Rule.keyword_name hc hcs hafter
    rw [if_pos hreserved] at hrule
    exact munch_of_rule rfl (rules_eq_none_of_isNameStart hc _) hrule
  | identifier =>
    obtain ⟨_, _, heq, hc, hcs⟩ := hword
    obtain ⟨rfl, rfl⟩ := List.cons.inj heq
    have hkeyword := Rule.keyword_name hc hcs hafter
    rw [if_neg (hplain rfl)] at hkeyword
    have hearlier : ∀ entry ∈ rules.take 3 ++ [(.keyword, Rule.keyword)],
        entry.2 c (cs ++ after) = none := by
      intro entry hentry
      rcases List.mem_append.mp hentry with h | h
      · exact rules_eq_none_of_isNameStart hc _ entry h
      · rw [List.mem_singleton.mp h]
        exact hkeyword
    exact munch_of_rule rfl hearlier (Rule.identifier_name hc hcs hafter)
  | operator =>
    have hearlier := rules_eq_none_of_sign (mem_signs_of_admits_operator hword) (cs ++ after)
    rcases hword with hlong | ⟨d, hd, heq⟩
    · exact munch_of_rule rfl hearlier (Rule.operator_long hlong after)
    · obtain ⟨rfl, rfl⟩ := List.cons.inj heq
      exact munch_of_rule rfl hearlier (Rule.operator_short hd hafter)
  | separator =>
    obtain ⟨d, hd, heq⟩ := hword
    obtain ⟨rfl, rfl⟩ := List.cons.inj heq
    have hearlier : ∀ entry ∈ rules.take 5 ++ [(.operator, Rule.operator)],
        entry.2 c ([] ++ after) = none := by
      intro entry hentry
      rcases List.mem_append.mp hentry with h | h
      · exact rules_eq_none_of_sign (mem_signs_of_mem_separators hd) _ entry h
      · rw [List.mem_singleton.mp h]
        exact Rule.operator_separator hd _
    exact munch_of_rule rfl hearlier (if_pos hd)
  | mismatch => exact absurd rfl hkind

end Token

end MiniC
