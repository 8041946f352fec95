import Mathlib
import MiniC.Proofs.Token.Layout

/-!
# The first rule that answers is maximal munch

The lexical rules are tried in a fixed order and the first that answers decides, whatever the rules
after it would have taken. The lexeme it finds is nevertheless the longest front of the text that
is a word of any kind, and its kind is the first whose language holds that word (`Token.Foremost`).
Two rules answer at one character only for floats and integers, where the earlier answer is the
longer, and for keywords and names, where both take the same characters. Main statement:
`Token.scan_maximal_munch`.
-/

namespace MiniC.Token

/-! ## 1. The lexeme that maximal munch demands -/

/-- The place of a kind in the order in which the rules are tried. -/
def Kind.rank (kind : Kind) : Nat := Kind.all.idxOf kind

example : rules.map Prod.fst ++ [.mismatch] = Kind.all := rfl

theorem Kind.rank_injective {kind kind' : Kind} (h : kind.rank = kind'.rank) : kind = kind' := by
  revert h
  cases kind <;> cases kind' <;> decide

theorem Kind.rank_le_mismatch (kind : Kind) : kind.rank ≤ Kind.mismatch.rank := by
  cases kind <;> decide

/-- **`word` is the lexeme at the front of `text` by maximal munch**: no longer front of the text is
    a word of any kind, and `kind` is the first kind whose language holds `word`. -/
structure Foremost (text : List Char) (kind : Kind) (word : List Char) : Prop where
  front : word <+: text
  admits : kind.Admits word
  longest : ∀ (k : Kind) (other : List Char), other <+: text → k.Admits other →
    other.length ≤ word.length
  first : ∀ k : Kind, k.Admits word → kind.rank ≤ k.rank

/-- Maximal munch leaves no choice. -/
theorem Foremost.unique {text word word' : List Char} {kind kind' : Kind}
    (h : Foremost text kind word) (h' : Foremost text kind' word') :
    kind = kind' ∧ word = word' := by
  have hlength : word.length = word'.length :=
    Nat.le_antisymm (h'.longest kind word h.front h.admits) (h.longest kind' word' h'.front h'.admits)
  have hword : word = word' :=
    (List.prefix_of_prefix_length_le h.front h'.front (Nat.le_of_eq hlength)).eq_of_length hlength
  subst hword
  exact ⟨Kind.rank_injective (Nat.le_antisymm (h.first kind' h'.admits) (h'.first kind h.admits)),
    rfl⟩

/-! ## 2. How far the rules reach -/

/-- A run goes on through characters that belong to it. -/
theorem length_le_run {p : Char → Bool} {word : List Char} (h : ∀ c ∈ word, p c = true)
    (after : List Char) : word.length ≤ run p (word ++ after) := by
  rw [run, List.takeWhile_append_of_pos h, List.length_append]
  exact Nat.le_add_right _ _

namespace Rule

variable {c : Char} {cs word : List Char} {n : Nat}

/-- Digits, a point and digits at the front of a text are a float, or the start of a longer one. -/
theorem float_reaches (hword : Kind.float.Admits (c :: word)) (after : List Char) :
    ∃ n, float c (word ++ after) = some n ∧ word.length ≤ n := by
  obtain ⟨whole, fraction, heq, ⟨hwhole, hdigits⟩, hfraction⟩ := hword
  cases whole with
  | nil => exact absurd rfl hwhole
  | cons d whole =>
    rw [List.cons_append, List.cons.injEq] at heq
    obtain ⟨rfl, rfl⟩ := heq
    obtain ⟨hc, hwhole⟩ := List.forall_mem_cons.mp hdigits
    have hpoint : run Char.isDigit (whole ++ '.' :: (fraction ++ after)) = whole.length :=
      run_append hwhole fun b hb => by
        cases hb
        decide
    have hreach := length_le_run hfraction.2 after
    have hpositive := List.length_pos_iff.mpr hfraction.1
    refine ⟨whole.length + 1 + run Char.isDigit (fraction ++ after), ?_, ?_⟩
    · rw [List.append_assoc, List.cons_append, float, if_pos hc]
      simp only [hpoint, List.drop_left]
      exact if_neg (by omega)
    · rw [List.length_append, List.length_cons]
      omega

/-- A float is longer than the digits it starts with. -/
theorem run_lt_of_float (h : float c cs = some n) : run Char.isDigit cs < n := by
  unfold float at h
  by_cases hc : c.isDigit = true
  · rw [if_pos hc] at h
    simp only at h
    split at h
    case h_2 => cases h
    case h_1 fraction _ =>
      by_cases hdigits : run Char.isDigit fraction = 0
      · rw [if_pos hdigits] at h
        cases h
      · rw [if_neg hdigits, Option.some.injEq] at h
        omega
  · rw [if_neg hc] at h
    cases h

end Rule

/-! ## 3. No word outdoes the lexeme -/

section Outdone

variable {c : Char} {word after : List Char}

/-- What was found takes more characters than `word` has, or as many and under a kind that comes no
    later. -/
def Outdone (kind : Kind) (word : List Char) (found : Kind × Nat) : Prop :=
  word.length < found.2 ∨ word.length = found.2 ∧ found.1.rank ≤ kind.rank

theorem outdone_of_le {kind kind' : Kind} {n : Nat} (hlength : word.length ≤ n)
    (hrank : kind'.rank ≤ kind.rank) : Outdone kind word (kind', n) := by
  rcases Nat.lt_or_eq_of_le hlength with hlt | heq
  · exact .inl hlt
  · exact .inr ⟨heq, hrank⟩

theorem outdone_float (hword : Kind.float.Admits (c :: word)) :
    Outdone .float word (munch c (word ++ after)) := by
  obtain ⟨n, hrule, hle⟩ := Rule.float_reaches hword after
  have hearlier : ∀ entry ∈ rules.take 0, entry.2 c (word ++ after) = none :=
    fun _ h => absurd h List.not_mem_nil
  rw [munch_of_rule rfl hearlier hrule]
  exact outdone_of_le hle (Nat.le_refl _)

/-- Where a float and an integer start, the float is the longer. -/
theorem outdone_integer (hword : Kind.integer.Admits (c :: word)) :
    Outdone .integer word (munch c (word ++ after)) := by
  obtain ⟨hc, hdigits⟩ := List.forall_mem_cons.mp hword.2
  have hreach := length_le_run hdigits after
  cases hfloat : Rule.float c (word ++ after) with
  | none =>
    have hearlier : ∀ entry ∈ rules.take 1, entry.2 c (word ++ after) = none := by
      simp [rules, hfloat]
    rw [munch_of_rule rfl hearlier (if_pos hc)]
    exact outdone_of_le hreach (Nat.le_refl _)
  | some n =>
    have hearlier : ∀ entry ∈ rules.take 0, entry.2 c (word ++ after) = none :=
      fun _ h => absurd h List.not_mem_nil
    rw [munch_of_rule rfl hearlier hfloat]
    exact .inl (Nat.lt_of_le_of_lt hreach (Rule.run_lt_of_float hfloat))

theorem outdone_string (hword : Kind.string.Admits (c :: word)) :
    Outdone .string word (munch c (word ++ after)) := by
  obtain ⟨body, heq, hbody⟩ := hword
  obtain ⟨rfl, rfl⟩ := List.cons.inj heq
  have hearlier : ∀ entry ∈ rules.take 2, entry.2 '"' (body ++ ['"'] ++ after) = none := by
    simp [rules, Rule.float_eq_none, Rule.integer_eq_none]
  rw [munch_of_rule rfl hearlier (Rule.string_quoted hbody after)]
  exact outdone_of_le (Nat.le_refl _) (Nat.le_refl _)

/-- What is found where a name starts: all that can belong to it, as a keyword if it is one. -/
theorem munch_name (hc : isNameStart c = true) (cs : List Char) :
    munch c cs = (if String.ofList (c :: cs.take (run isNamePart cs)) ∈ keywords then .keyword
      else .identifier, run isNamePart cs) := by
  have hearlier := rules_eq_none_of_isNameStart hc cs
  have hname : Rule.identifier c cs = some (run isNamePart cs) := if_pos hc
  have hkeyword : Rule.keyword c cs =
      if String.ofList (c :: cs.take (run isNamePart cs)) ∈ keywords then some (run isNamePart cs)
      else none := by
    rw [Rule.keyword, hname, Option.filter_some]
    simp
  by_cases hreserved : String.ofList (c :: cs.take (run isNamePart cs)) ∈ keywords
  · rw [if_pos hreserved] at hkeyword ⊢
    exact munch_of_rule rfl hearlier hkeyword
  · rw [if_neg hreserved] at hkeyword ⊢
    have hearlier' : ∀ entry ∈ rules.take 4, entry.2 c cs = none := by
      intro entry hentry
      rcases List.mem_append.mp (show entry ∈ rules.take 3 ++ [(.keyword, Rule.keyword)] from hentry)
        with h | h
      · exact hearlier entry h
      · rw [List.mem_singleton.mp h]
        exact hkeyword
    exact munch_of_rule rfl hearlier' hname

theorem outdone_identifier (hword : Kind.identifier.Admits (c :: word)) :
    Outdone .identifier word (munch c (word ++ after)) := by
  obtain ⟨_, _, heq, hc, hparts⟩ := hword
  obtain ⟨rfl, rfl⟩ := List.cons.inj heq
  rw [munch_name hc]
  refine outdone_of_le (length_le_run hparts after) ?_
  split <;> decide

/-- A keyword that a longer name starts with is outdone by the name. -/
theorem outdone_keyword (hword : Kind.keyword.Admits (c :: word)) :
    Outdone .keyword word (munch c (word ++ after)) := by
  obtain ⟨_, _, heq, hc, hparts⟩ := Kind.admits_identifier_of_keyword hword
  obtain ⟨rfl, rfl⟩ := List.cons.inj heq
  rw [munch_name hc]
  rcases Nat.lt_or_eq_of_le (length_le_run hparts after) with hlt | heq
  · exact .inl hlt
  · have hreserved : String.ofList (c :: word) ∈ keywords := hword
    rw [← heq, List.take_left, if_pos hreserved]
    exact .inr ⟨rfl, Nat.le_refl _⟩

theorem outdone_operator (hword : Kind.operator.Admits (c :: word)) :
    Outdone .operator word (munch c (word ++ after)) := by
  have hearlier := rules_eq_none_of_sign (mem_signs_of_admits_operator hword) (word ++ after)
  rcases hword with hlong | ⟨d, hd, heq⟩
  · rw [munch_of_rule rfl hearlier (Rule.operator_long hlong after)]
    exact outdone_of_le (Nat.le_refl _) (Nat.le_refl _)
  · obtain ⟨rfl, rfl⟩ := List.cons.inj heq
    -- the same character may be the first of a long operator, which is then taken
    have hrule : ∃ n, Rule.operator c ([] ++ after) = some n := by
      unfold Rule.operator
      by_cases hlong : String.ofList (c :: ([] ++ after).take 1) ∈ longOperators
      · exact ⟨1, if_pos hlong⟩
      · exact ⟨0, by rw [if_neg hlong, if_pos hd]⟩
    obtain ⟨n, hrule⟩ := hrule
    rw [munch_of_rule rfl hearlier hrule]
    exact outdone_of_le (Nat.zero_le n) (Nat.le_refl _)

theorem outdone_separator (hword : Kind.separator.Admits (c :: word)) :
    Outdone .separator word (munch c (word ++ after)) := by
  obtain ⟨d, hd, heq⟩ := hword
  obtain ⟨rfl, rfl⟩ := List.cons.inj heq
  have hearlier : ∀ entry ∈ rules.take 5 ++ [(.operator, Rule.operator)],
      entry.2 c ([] ++ after) = none := by
    intro entry hentry
    rcases List.mem_append.mp hentry with h | h
    · exact rules_eq_none_of_sign (mem_signs_of_mem_separators hd) _ entry h
    · rw [List.mem_singleton.mp h]
      exact Rule.operator_separator hd _
  rw [munch_of_rule rfl hearlier (if_pos hd)]
  exact outdone_of_le (Nat.le_refl _) (Nat.le_refl _)

/-- **No word at the front of a text outdoes the lexeme that is found there.** -/
theorem outdone_munch {kind : Kind} (hword : kind.Admits (c :: word)) (after : List Char) :
    Outdone kind word (munch c (word ++ after)) := by
  cases kind with
  | float => exact outdone_float hword
  | integer => exact outdone_integer hword
  | string => exact outdone_string hword
  | keyword => exact outdone_keyword hword
  | identifier => exact outdone_identifier hword
  | operator => exact outdone_operator hword
  | separator => exact outdone_separator hword
  | mismatch =>
    obtain ⟨d, heq⟩ := hword
    obtain ⟨-, rfl⟩ := List.cons.inj heq
    exact outdone_of_le (Nat.zero_le _) (Kind.rank_le_mismatch _)

end Outdone

/-- **The lexeme found at a character is the one that maximal munch demands.** -/
theorem foremost_munch (c : Char) (cs : List Char) :
    Foremost (c :: cs) (munch c cs).1 (c :: cs.take (munch c cs).2) := by
  obtain ⟨hbound, hadmits⟩ := munch_sound c cs
  have hlength : (cs.take (munch c cs).2).length = (munch c cs).2 := List.length_take_of_le hbound
  refine ⟨List.cons_prefix_cons.mpr ⟨rfl, List.take_prefix _ _⟩, hadmits, ?_, ?_⟩
  · intro k other hfront hother
    cases other with
    | nil => exact Nat.zero_le _
    | cons d word =>
      obtain ⟨rfl, after, rfl⟩ := List.cons_prefix_cons.mp hfront
      rw [List.length_cons, List.length_cons, hlength]
      rcases outdone_munch hother after with hlt | ⟨heq, -⟩
      · omega
      · omega
  · intro k hk
    have houtdone := outdone_munch hk (cs.drop (munch c cs).2)
    rw [List.take_append_drop] at houtdone
    rcases houtdone with hlt | ⟨-, hrank⟩
    · omega
    · exact hrank

/-! ## 4. Scanning -/

/-- **The lexemes of a text by maximal munch**, each with its kind: blanks are passed over, and
    anything else starts a lexeme. -/
inductive Munched : List Char → List (Kind × String) → Prop where
  | nil : Munched [] []
  | blank {c : Char} {cs : List Char} {lexemes : List (Kind × String)}
      (hc : Text.isBlank c = true) (rest : Munched cs lexemes) : Munched (c :: cs) lexemes
  | lexeme {c : Char} {cs word after : List Char} {kind : Kind} {lexemes : List (Kind × String)}
      (hc : Text.isBlank c = false) (heq : c :: cs = word ++ after)
      (foremost : Foremost (c :: cs) kind word) (rest : Munched after lexemes) :
      Munched (c :: cs) ((kind, String.ofList word) :: lexemes)

theorem munched_scanFrom (pos : Position) (text : List Char) :
    Munched text ((scanFrom pos text).map fun t => (t.kind, t.text)) := by
  fun_induction scanFrom pos text with
  | case1 => exact .nil
  | case2 pos c cs hblank ih => exact .blank hblank ih
  | case3 pos c cs hblank found lexeme ih =>
    refine .lexeme (Bool.eq_false_iff.mpr hblank) ?_ (foremost_munch c cs) ih
    rw [List.cons_append, List.take_append_drop]

/-- Maximal munch finds one list of lexemes in a text. -/
theorem Munched.unique {text : List Char} {lexemes lexemes' : List (Kind × String)}
    (h : Munched text lexemes) (h' : Munched text lexemes') : lexemes = lexemes' := by
  induction h generalizing lexemes' with
  | nil =>
    cases h' with
    | nil => rfl
  | blank hc _ ih =>
    cases h' with
    | blank _ rest => exact ih rest
    | lexeme hc' _ _ _ => exact absurd (hc.symm.trans hc') (by decide)
  | lexeme hc heq foremost _ ih =>
    cases h' with
    | blank hc' _ => exact absurd (hc.symm.trans hc') (by decide)
    | lexeme _ heq' foremost' rest =>
      obtain ⟨rfl, rfl⟩ := foremost.unique foremost'
      rw [List.append_cancel_left (heq.symm.trans heq')] at ih
      rw [ih rest]

/-- Each token is the lexeme that maximal munch demands of the text left after the tokens before it
    and their gaps. -/
theorem foremost_scanFrom (text before : List Char) :
    ∀ earlier t later, scanFrom (.after before) text = earlier ++ t :: later →
      ∃ passed rest lead gaps, text = passed ++ rest ∧ Layout before passed earlier lead gaps ∧
        t.pos = .after (before ++ passed) ∧ Foremost rest t.kind t.text.toList := by
  generalize hpos : Position.after before = pos
  fun_induction scanFrom pos text generalizing before with
  | case1 =>
    intro earlier t later h
    simp at h
  | case2 pos c cs hblank ih =>
    intro earlier t later h
    have hnext : Position.after (before ++ [c]) = pos.next c := by
      rw [Position.after_append_singleton, hpos]
    obtain ⟨passed, rest, lead, gaps, rfl, hlayout, ht, hforemost⟩ :=
      ih (before ++ [c]) hnext earlier t later h
    refine ⟨c :: passed, rest, c :: lead, gaps, rfl, hlayout.blank hblank, ?_, hforemost⟩
    rw [ht, List.append_assoc, List.singleton_append]
  | case3 pos c cs hblank found lexeme ih =>
    intro earlier t later h
    cases earlier with
    | nil =>
      obtain ⟨rfl, -⟩ := List.cons.inj h
      refine ⟨[], c :: cs, [], [], rfl, .nil before, ?_, ?_⟩
      · rw [List.append_nil, hpos]
      · rw [String.toList_ofList]
        exact foremost_munch c cs
    | cons t' earlier =>
      obtain ⟨rfl, hlater⟩ := List.cons.inj h
      have hnext : Position.after (before ++ lexeme) = pos.advance lexeme := by
        rw [Position.after_append, hpos]
      obtain ⟨passed, rest, lead, gaps, hrest, hlayout, ht, hforemost⟩ :=
        ih (before ++ lexeme) hnext earlier t later hlater
      have hfirst := hlayout.lexeme found.1 (Bool.eq_false_iff.mpr hblank)
      rw [hpos] at hfirst
      refine ⟨lexeme ++ passed, rest, [], lead :: gaps, ?_, hfirst, ?_, hforemost⟩
      · rw [List.append_assoc, ← hrest]
        exact congrArg (c :: ·) (List.take_append_drop _ _).symm
      · rw [ht, List.append_assoc]

/-- **Trying the rules in order is maximal munch.** Every token of a text is the longest front of
    what is left of the text at its place that is a word of any kind, and its kind is the first in
    the order of the rules whose language holds that word; and the lexemes that are found are just
    those that maximal munch finds. -/
theorem scan_maximal_munch (source : String) :
    (∀ earlier t later, scan source = earlier ++ t :: later →
      ∃ passed rest lead gaps, source.toList = passed ++ rest ∧
        Layout [] passed earlier lead gaps ∧ t.pos = .after passed ∧
        Foremost rest t.kind t.text.toList) ∧
    (∀ lexemes, Munched source.toList lexemes ↔
      lexemes = (scan source).map fun t => (t.kind, t.text)) := by
  refine ⟨foremost_scanFrom source.toList [], fun lexemes => ?_⟩
  have hscan := munched_scanFrom Position.start source.toList
  constructor
  · exact fun h => h.unique hscan
  · rintro rfl
    exact hscan

/-- After `1.2` comes a point that starts no float, and after `<=` a sign of its own. -/
theorem scan_maximal_munch_crowdedSigns :
    ∃ t later, scan "1.2.3<==" = [⟨.float, "1.2", ⟨1, 1⟩⟩] ++ t :: later ∧
      ∃ passed rest, "1.2.3<==".toList = passed ++ rest ∧ t.pos = .after passed ∧
        Foremost rest t.kind t.text.toList := by
  have hscan : scan "1.2.3<==" = [⟨.float, "1.2", ⟨1, 1⟩⟩] ++ ⟨.mismatch, ".", ⟨1, 4⟩⟩ ::
      [⟨.integer, "3", ⟨1, 5⟩⟩, ⟨.operator, "<=", ⟨1, 6⟩⟩, ⟨.operator, "=", ⟨1, 8⟩⟩] := by
    cbv
  obtain ⟨passed, rest, -, -, htext, -, hpos, hforemost⟩ :=
    (scan_maximal_munch "1.2.3<==").1 _ _ _ hscan
  exact ⟨_, _, hscan, passed, rest, htext, hpos, hforemost⟩

end MiniC.Token
