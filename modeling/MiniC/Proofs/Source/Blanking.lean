import Mathlib
import MiniC.Source.Comment
import MiniC.Proofs.Token.Spacing

/-!
# Comments as blanks

A comment means as much as the blanks that could stand in its place. `Source.blankComments` writes
these blanks: every character of a comment but its newlines becomes a space, so that nothing moves.
Removing the comments moves what comes after them, and still the tokens of the two texts are the
same ones on the same lines, which are the lines of the text with its comments. Main statement:
`Source.scan_stripComments`.
-/

namespace MiniC

namespace Source

/-! ## 1. Blanking -/

/-- Spaces in the place of all characters but newlines. -/
def clear (text : List Char) : List Char := text.map fun c => if c = '\n' then '\n' else ' '

/-- The length of what is left of a block comment: through the first `*/`, or to the end. -/
def blockLength : List Char → Nat
  | [] => 0
  | '*' :: '/' :: _ => 2
  | _ :: cs => blockLength cs + 1

/-- The length of what comes before the first `stop`, or of everything. -/
def lengthUpTo (stop : Char) (cs : List Char) : Nat := (cs.takeWhile (· ≠ stop)).length

/-- Outside strings and comments. A line comment runs up to the next newline, a block comment
    through the first closing that starts after its opening, and a string through the next quote. -/
def blankCode : List Char → List Char
  | [] => []
  | '"' :: cs =>
    '"' :: (cs.take (lengthUpTo '"' cs + 1) ++ blankCode (cs.drop (lengthUpTo '"' cs + 1)))
  | '/' :: '/' :: cs =>
    clear ('/' :: '/' :: cs.take (lengthUpTo '\n' cs)) ++ blankCode (cs.drop (lengthUpTo '\n' cs))
  | '/' :: '*' :: cs =>
    clear ('/' :: '*' :: cs.take (blockLength cs)) ++ blankCode (cs.drop (blockLength cs))
  | c :: cs => c :: blankCode cs
termination_by cs => cs.length
decreasing_by
  all_goals simp only [List.length_cons, List.length_drop]; omega

/-- **The text with spaces in the place of its comments.** -/
def blankComments (source : String) : String := String.ofList (blankCode source.toList)

/-- Blanking a comment does not move what comes after it. -/
theorem advance_clear (pos : Position) (text : List Char) :
    pos.advance (clear text) = pos.advance text := by
  induction text generalizing pos with
  | nil => rfl
  | cons c text ih =>
    have hstep : pos.next (if c = '\n' then '\n' else ' ') = pos.next c := by
      by_cases h : c = '\n'
      · rw [if_pos h, h]
      · rw [if_neg h, Position.next, Position.next, if_neg h, if_neg (by decide)]
    show (pos.next _).advance (clear text) = _
    rw [hstep, ih, Position.advance_cons]

theorem isBlank_of_mem_clear {text : List Char} {c : Char} (h : c ∈ clear text) :
    Text.isBlank c = true := by
  obtain ⟨d, -, rfl⟩ := List.mem_map.mp h
  by_cases hd : d = '\n'
  · rw [if_pos hd]
    decide
  · rw [if_neg hd]
    decide

/-! ## 2. A text without its comments and with blanks for them -/

/-- **A comment, what is left of it, and the text behind it.** A line comment runs up to the next
    newline and leaves nothing. A block comment runs through the first closing that starts after its
    opening, and leaves its newlines and a space. Without such an end both run to the end. -/
inductive IsComment : (text left behind : List Char) → Prop
  | line {body behind} (oneLine : '\n' ∉ body) (ends : ∀ c ∈ behind.head?, c = '\n') :
      IsComment ('/' :: '/' :: body) [] behind
  | block {body behind} (closes : blockLength (body ++ behind) = body.length) :
      IsComment ('/' :: '*' :: body) (body.filter (· = '\n') ++ [' ']) behind

namespace IsComment

variable {text left behind : List Char}

theorem ne_nil (h : IsComment text left behind) : text ≠ [] := by
  cases h <;> exact List.cons_ne_nil _ _

theorem eq_newline_or_space (h : IsComment text left behind) :
    ∀ c ∈ left, c = '\n' ∨ c = ' ' := by
  cases h with
  | line => exact List.forall_mem_nil _
  | block =>
    intro c hc
    rcases List.mem_append.mp hc with hc | hc
    · exact .inl (of_decide_eq_true (List.mem_filter.mp hc).2)
    · exact .inr (List.mem_singleton.mp hc)

theorem isBlank (h : IsComment text left behind) : ∀ c ∈ left, Text.isBlank c = true := by
  intro c hc
  rcases h.eq_newline_or_space c hc with rfl | rfl <;> decide

theorem count_newlines (h : IsComment text left behind) : left.count '\n' = text.count '\n' := by
  cases h with
  | line oneLine => simp [List.count_eq_zero.mpr oneLine]
  | block => simp [List.count_filter]

end IsComment

/-- **How a text, the text without its comments and the text with blanks for them go together.**
    They differ at comments only, and a gap or the end of the text comes in the place of each. -/
inductive Cleared : (source stripped blanked : List Char) → Prop
  | same {cs} : Cleared cs cs cs
  | comment {text left source stripped blanked} (comment : IsComment text left source)
      (ended : Token.Ended (left ++ stripped)) (rest : Cleared source stripped blanked) :
      Cleared (text ++ source) (left ++ stripped) (clear text ++ blanked)
  | string {body source stripped blanked} (plain : '"' ∉ body)
      (rest : Cleared source stripped blanked) :
      Cleared ('"' :: (body ++ ['"'] ++ source)) ('"' :: (body ++ ['"'] ++ stripped))
        ('"' :: (body ++ ['"'] ++ blanked))
  | plain {c source stripped blanked} (ne : c ≠ '"') (rest : Cleared source stripped blanked) :
      Cleared (c :: source) (c :: stripped) (c :: blanked)

theorem stripString_body {body : List Char} (h : '"' ∉ body) (cs : List Char) :
    stripString (body ++ cs) = body ++ stripString cs := by
  induction body with
  | nil => rfl
  | cons c body ih =>
    obtain ⟨hc, hbody⟩ := List.ne_and_not_mem_of_not_mem_cons h
    rw [List.cons_append, stripString, if_neg hc.symm, ih hbody, List.cons_append]

/-- A line comment disappears. -/
theorem stripLine_eq (cs : List Char) :
    stripLine cs = stripCode (cs.drop (lengthUpTo '\n' cs)) := by
  induction cs with
  | nil => rfl
  | cons c cs ih =>
    by_cases h : c = '\n'
    · rw [stripLine, if_pos h, h]
      simp [lengthUpTo, stripCode]
    · rw [stripLine, if_neg h, ih]
      simp [lengthUpTo, h]

/-- What a block comment and the text after it leave: the newlines of the comment, a space, and the
    text without its comments. -/
def strippedBlock (cs : List Char) : List Char :=
  (cs.take (blockLength cs)).filter (· = '\n') ++ ' ' :: stripCode (cs.drop (blockLength cs))

theorem strippedBlock_cons {c : Char} {cs : List Char} (h : c = '*' → cs.head? ≠ some '/') :
    strippedBlock (c :: cs) = if c = '\n' then '\n' :: strippedBlock cs else strippedBlock cs := by
  have hlength : blockLength (c :: cs) = blockLength cs + 1 := by
    rw [blockLength]
    rintro rest rfl rfl
    exact h rfl rfl
  rw [strippedBlock, hlength, List.take_succ_cons, List.drop_succ_cons]
  by_cases hc : c = '\n'
  · simp [hc, strippedBlock]
  · simp [hc, strippedBlock]

/-- A block comment leaves its newlines and a space. A star just passed may belong to the closing,
    so it stands before what is left of the comment. -/
theorem stripBlock_eq (starred : Bool) (cs : List Char) :
    stripBlock starred cs = strippedBlock (if starred then '*' :: cs else cs) := by
  induction cs generalizing starred with
  | nil => cases starred <;> rfl
  | cons c cs ih =>
    by_cases hclose : (starred && c = '/') = true
    · rw [stripBlock, if_pos hclose]
      obtain ⟨rfl, hslash⟩ := Bool.and_eq_true_iff.mp hclose
      rw [of_decide_eq_true hslash]
      rfl
    · have hstar : strippedBlock (if starred then '*' :: c :: cs else c :: cs) =
          strippedBlock (c :: cs) := by
        cases starred with
        | false => rfl
        | true =>
          rw [if_pos rfl, strippedBlock_cons, if_neg (by decide)]
          intro _ hslash
          simp_all
      rw [hstar, stripBlock, if_neg hclose]
      by_cases hline : c = '\n'
      · rw [if_pos hline, ih, strippedBlock_cons, if_pos hline]
        · rfl
        · rintro rfl
          cases hline
      · rw [if_neg hline, ih]
        by_cases hc : c = '*'
        · rw [if_pos (decide_eq_true hc), hc]
        · rw [strippedBlock_cons (absurd · hc), if_neg hline, if_neg (by simpa using hc)]

theorem ended_append {gap cs : List Char} (hblank : ∀ c ∈ gap, Text.isBlank c = true)
    (h : gap = [] → Token.Ended cs) : Token.Ended (gap ++ cs) := by
  cases gap with
  | nil => exact h rfl
  | cons c gap =>
    intro b hb
    rw [List.cons_append, List.head?_cons, Option.mem_some] at hb
    exact hb ▸ hblank c List.mem_cons_self

/-- A character that stops a string or a line comment is missing, or stands at the length given. -/
theorem lengthUpTo_cases (stop : Char) (cs : List Char) :
    (stop ∉ cs ∧ lengthUpTo stop cs = cs.length) ∨
    ∃ body rest, cs = body ++ stop :: rest ∧ stop ∉ body ∧ lengthUpTo stop cs = body.length := by
  have hpass : ∀ body rest : List Char, stop ∉ body →
      (body ++ rest).takeWhile (· ≠ stop) = body ++ rest.takeWhile (· ≠ stop) :=
    fun body rest hbody => List.takeWhile_append_of_pos fun c hc =>
      decide_eq_true fun heq => hbody (heq ▸ hc)
  by_cases h : stop ∈ cs
  · obtain ⟨body, rest, rfl, hbody⟩ := List.eq_append_cons_of_mem h
    refine .inr ⟨body, rest, rfl, hbody, ?_⟩
    rw [lengthUpTo, hpass body _ hbody]
    simp
  · have hall := hpass cs [] h
    rw [List.takeWhile_nil, List.append_nil] at hall
    exact .inl ⟨h, by rw [lengthUpTo, hall]⟩

/-- A line comment holds no newline, and a newline or the end comes after it. -/
theorem isComment_line (cs : List Char) :
    IsComment ('/' :: '/' :: cs.take (lengthUpTo '\n' cs)) [] (cs.drop (lengthUpTo '\n' cs)) := by
  rcases lengthUpTo_cases '\n' cs with ⟨hopen, hlength⟩ | ⟨body, rest, rfl, hbody, hlength⟩
  · rw [hlength, List.take_length, List.drop_length]
    exact .line hopen fun c hc => absurd hc (by simp)
  · rw [hlength, List.take_left, List.drop_left]
    exact .line hbody fun c hc => (Option.some.inj hc).symm

/-- What is left behind a line comment starts with the newline, if there is one. -/
theorem ended_of_isComment_line {body behind : List Char}
    (h : IsComment ('/' :: '/' :: body) [] behind) : Token.Ended (stripCode behind) := by
  cases h with
  | line oneLine ends =>
    cases behind with
    | nil =>
      rw [stripCode]
      exact fun b hb => absurd hb (by simp)
    | cons c behind =>
      rw [ends c rfl]
      intro b hb
      have hfirst : b = '\n' := by simpa [stripCode, eq_comm] using hb
      rw [hfirst]
      decide

theorem blockLength_le_length (cs : List Char) : blockLength cs ≤ cs.length := by
  fun_induction blockLength cs with
  | case1 => exact Nat.le_refl 0
  | case2 cs => exact Nat.le_add_left 2 cs.length
  | case3 c cs _ ih => exact Nat.succ_le_succ ih

theorem isComment_block (cs : List Char) :
    IsComment ('/' :: '*' :: cs.take (blockLength cs))
      ((cs.take (blockLength cs)).filter (· = '\n') ++ [' ']) (cs.drop (blockLength cs)) := by
  refine .block ?_
  rw [List.take_append_drop, List.length_take, Nat.min_eq_left (blockLength_le_length cs)]

/-- Removing the comments and blanking them keep the same text outside comments. -/
theorem cleared_code (cs : List Char) : Cleared cs (stripCode cs) (blankCode cs) := by
  fun_induction blankCode cs with
  | case1 =>
    rw [stripCode]
    exact .same
  | case2 cs ih =>
    rw [stripCode]
    rcases lengthUpTo_cases '"' cs with ⟨hopen, hlength⟩ | ⟨body, rest, rfl, hbody, hlength⟩
    · have hstrip := stripString_body hopen []
      rw [List.append_nil] at hstrip
      rw [hstrip, stripString, List.append_nil, List.take_of_length_le (by omega),
        List.drop_eq_nil_of_le (by omega), blankCode, List.append_nil]
      exact .same
    · rw [hlength, List.drop_length_add_append] at ih
      rw [hlength, List.take_length_add_append, List.drop_length_add_append, stripString_body hbody,
        stripString, if_pos rfl]
      have hstring := Cleared.string hbody ih
      simpa using hstring
  | case3 cs ih =>
    rw [stripCode, stripLine_eq]
    have hline := isComment_line cs
    have hcomment := Cleared.comment hline (ended_of_isComment_line hline) ih
    simpa using hcomment
  | case4 cs ih =>
    rw [stripCode, stripBlock_eq]
    have hblock := isComment_block cs
    have hended : Token.Ended
        (((cs.take (blockLength cs)).filter (· = '\n') ++ [' ']) ++
          stripCode (cs.drop (blockLength cs))) :=
      ended_append hblock.isBlank fun hnil => absurd hnil (by simp)
    have hcomment := Cleared.comment hblock hended ih
    simpa [strippedBlock] using hcomment
  | case5 c cs hquote hline hblock ih =>
    have hkeep : stripCode (c :: cs) = c :: stripCode cs := by
      rw [stripCode] <;> assumption
    rw [hkeep]
    exact .plain hquote ih

end Source

/-! ## 3. Lexemes before a blank or a quote -/

namespace Token

/-- Nothing comes, or a blank or a quote. Of the lexemes, only a string goes on there. -/
def Severed (after : List Char) : Prop := ∀ b ∈ after.head?, Text.isBlank b = true ∨ b = '"'

theorem Ended.severed {after : List Char} (h : Ended after) : Severed after :=
  fun b hb => .inl (h b hb)

theorem Severed.toNat {after : List Char} (h : Severed after) :
    ∀ b ∈ after.head?, b.toNat ≤ 34 ∨ 127 ≤ b.toNat := by
  intro b hb
  rcases h b hb with hblank | rfl
  · have := toNat_of_isBlank hblank
    omega
  · decide

theorem Severed.isDigit {after : List Char} (h : Severed after) :
    ∀ b ∈ after.head?, b.isDigit = false := by
  intro b hb
  have hrange := h.toNat b hb
  rw [Bool.eq_false_iff]
  intro hdigit
  have := isDigit_iff_toNat.mp hdigit
  omega

theorem Severed.isNamePart {after : List Char} (h : Severed after) :
    ∀ b ∈ after.head?, isNamePart b = false := by
  intro b hb
  have hrange := h.toNat b hb
  rw [Bool.eq_false_iff]
  intro hpart
  have := toNat_of_isNamePart hpart
  omega

theorem run_severed {p : Char → Bool} {after : List Char} (h : ∀ b ∈ after.head?, p b = false)
    (cs : List Char) : run p (cs ++ after) = run p cs := by
  induction cs with
  | nil =>
    cases after with
    | nil => rfl
    | cons b after => simp [run, h b rfl]
  | cons c cs ih =>
    unfold run at ih ⊢
    rw [List.cons_append, List.takeWhile_cons, List.takeWhile_cons]
    by_cases hc : p c = true
    · rw [if_pos hc, if_pos hc, List.length_cons, List.length_cons, ih]
    · rw [if_neg hc, if_neg hc]

namespace Rule

variable {after : List Char}

theorem float_severed (h : Severed after) (c : Char) (cs : List Char) :
    float c (cs ++ after) = float c cs := by
  unfold float
  have hdrop : (cs ++ after).drop (run Char.isDigit cs) = cs.drop (run Char.isDigit cs) ++ after :=
    List.drop_append_of_le_length (run_le_length _ _)
  simp only [run_severed h.isDigit, hdrop]
  cases cs.drop (run Char.isDigit cs) with
  | nil =>
    cases after with
    | nil => rfl
    | cons b after =>
      have hb : b ≠ '.' := by
        rintro rfl
        have := h.toNat '.' rfl
        exact absurd this (by decide)
      simp [hb]
  | cons d rest =>
    by_cases hd : d = '.'
    · simp [hd, run_severed h.isDigit]
    · simp [hd]

theorem identifier_severed (h : Severed after) (c : Char) (cs : List Char) :
    identifier c (cs ++ after) = identifier c cs := by
  rw [identifier, identifier, run_severed h.isNamePart]

theorem keyword_severed (h : Severed after) (c : Char) (cs : List Char) :
    keyword c (cs ++ after) = keyword c cs := by
  rw [keyword, keyword, identifier_severed h]
  cases hname : identifier c cs with
  | none => rfl
  | some n =>
    have hbound := (sound_identifier c cs n hname).1
    rw [Option.filter_some, Option.filter_some, List.take_append_of_le_length hbound]

/-- A long operator has a visible second character that is no quote. -/
theorem not_mem_longOperators (h : Severed after) (c : Char) :
    String.ofList (c :: after.take 1) ∉ longOperators := by
  intro hmem
  have hvisible : ∀ s ∈ longOperators,
      s.toList.tail.any (fun b => 35 ≤ b.toNat ∧ b.toNat < 127) = true := by
    decide
  have hsecond := hvisible _ hmem
  rw [String.toList_ofList, List.tail_cons] at hsecond
  cases after with
  | nil => cases hsecond
  | cons b after =>
    have hrange := h.toNat b rfl
    have hb : 35 ≤ b.toNat ∧ b.toNat < 127 := by simpa using hsecond
    omega

theorem operator_severed (h : Severed after) (c : Char) (cs : List Char) :
    operator c (cs ++ after) = operator c cs := by
  cases cs with
  | cons d cs => rfl
  | nil =>
    have hend : Severed [] := fun b hb => absurd hb (by simp)
    rw [List.nil_append, operator, operator, if_neg (not_mem_longOperators h c),
      if_neg (not_mem_longOperators hend c)]

end Rule

/-- **A lexeme that is no string ends before a blank or a quote,** and is found by what stands
    before it. -/
theorem munch_severed {c : Char} {after : List Char} (hc : c ≠ '"') (h : Severed after)
    (cs : List Char) : munch c (cs ++ after) = munch c cs := by
  unfold munch rules
  simp only [List.findSome?_cons, List.findSome?_nil, Rule.float_severed h, Rule.integer,
    run_severed h.isDigit, Rule.string_eq_none hc, Rule.keyword_severed h,
    Rule.identifier_severed h, Rule.operator_severed h, Rule.separator]

theorem munch_string {body : List Char} (hbody : '"' ∉ body) (after : List Char) :
    munch '"' (body ++ ['"'] ++ after) = (.string, (body ++ ['"']).length) := by
  have hearlier : ∀ entry ∈ rules.take 2, entry.2 '"' (body ++ ['"'] ++ after) = none := by
    simp [rules, Rule.float_eq_none, Rule.integer_eq_none]
  exact munch_of_rule rfl hearlier (Rule.string_quoted hbody after)

/-- Every lexeme is a front of the text. -/
theorem exists_munch_eq (c : Char) (cs : List Char) :
    ∃ kind word rest, cs = word ++ rest ∧ munch c cs = (kind, word.length) := by
  have hbound := (munch_sound c cs).1
  refine ⟨(munch c cs).1, cs.take (munch c cs).2, cs.drop (munch c cs).2, ?_, ?_⟩
  · rw [List.take_append_drop]
  · rw [List.length_take_of_le hbound]

end Token

/-! ## 4. Scanning -/

namespace Source

open Token

/-- **Two tokens for one lexeme of a text:** they agree in kind, text and line, and the second
    stands where the lexeme stands in the text. -/
structure Twins (source : List Char) (t u : Token) : Prop where
  kind_eq : t.kind = u.kind
  text_eq : t.text = u.text
  line_eq : t.pos.line = u.pos.line
  placed : ∃ before after, source = before ++ u.text.toList ++ after ∧ u.pos = .after before

/-- The three texts are the same up to the next comment or string, and go together from every point
    before it on. -/
def Shared (source stripped blanked : List Char) : Prop :=
  ∃ common s a b, source = common ++ s ∧ stripped = common ++ a ∧ blanked = common ++ b ∧
    Severed a ∧ Severed b ∧
    ∀ word rest, common = word ++ rest → Cleared (rest ++ s) (rest ++ a) (rest ++ b)

theorem Cleared.shared_of_severed {source stripped blanked : List Char}
    (h : Cleared source stripped blanked) (hstripped : Severed stripped)
    (hblanked : Severed blanked) : Shared source stripped blanked := by
  refine ⟨[], _, _, _, rfl, rfl, rfl, hstripped, hblanked, fun word rest heq => ?_⟩
  obtain ⟨-, rfl⟩ := List.append_eq_nil_iff.mp heq.symm
  exact h

theorem Cleared.shared {source stripped blanked : List Char}
    (h : Cleared source stripped blanked) : Shared source stripped blanked := by
  induction h with
  | @same cs =>
    have hend : Severed [] := fun b hb => absurd hb (by simp)
    refine ⟨cs, [], [], [], ?_, ?_, ?_, hend, hend, fun _ _ _ => .same⟩ <;> rw [List.append_nil]
  | comment comment ended rest =>
    refine shared_of_severed (.comment comment ended rest) ended.severed ?_
    refine (ended_append (fun c => isBlank_of_mem_clear) fun hnil => ?_).severed
    exact absurd (List.map_eq_nil_iff.mp hnil) comment.ne_nil
  | string plain rest =>
    have hquote : ∀ cs, Severed ('"' :: cs) := by
      intro cs b hb
      exact .inr (Option.some.inj hb).symm
    exact shared_of_severed (.string plain rest) (hquote _) (hquote _)
  | @plain c _ _ _ ne rest ih =>
    obtain ⟨common, s, a, b, rfl, rfl, rfl, ha, hb, hdrop⟩ := ih
    refine ⟨c :: common, s, a, b, rfl, rfl, rfl, ha, hb, fun word left heq => ?_⟩
    cases word with
    | nil =>
      rw [List.nil_append] at heq
      rw [← heq]
      exact .plain ne rest
    | cons d word => exact hdrop word left (List.cons.inj heq).2

/-- A lexeme that is no string is the same in the texts without comments and with blanks for them,
    and it stands in the source. -/
theorem Cleared.exists_lexeme {source stripped blanked : List Char} {c : Char}
    (h : Cleared source stripped blanked) (hc : c ≠ '"') :
    ∃ kind word s a b, source = word ++ s ∧ stripped = word ++ a ∧ blanked = word ++ b ∧
      munch c stripped = (kind, word.length) ∧ munch c blanked = (kind, word.length) ∧
      Cleared s a b := by
  obtain ⟨common, s, a, b, rfl, rfl, rfl, ha, hb, hdrop⟩ := h.shared
  obtain ⟨kind, word, rest, rfl, hmunch⟩ := exists_munch_eq c common
  refine ⟨kind, word, rest ++ s, rest ++ a, rest ++ b, ?_, ?_, ?_, ?_, ?_, hdrop word rest rfl⟩
  · rw [List.append_assoc]
  · rw [List.append_assoc]
  · rw [List.append_assoc]
  · rw [munch_severed hc ha, hmunch]
  · rw [munch_severed hc hb, hmunch]

variable {before : List Char} {pos : Position}

theorem line_advance_after (cs : List Char) (hline : pos.line = (Position.after before).line) :
    (pos.advance cs).line = (Position.after (before ++ cs)).line := by
  rw [Position.after_append, Position.line_advance, Position.line_advance, hline]

/-- One lexeme: what is found after it decides. -/
theorem forall₂_lexeme {c : Char} {kind : Kind} {word s a b : List Char}
    (hc : Text.isBlank c = false) (hline : pos.line = (Position.after before).line)
    (ha : munch c (word ++ a) = (kind, word.length))
    (hb : munch c (word ++ b) = (kind, word.length))
    (hrest : List.Forall₂ (Twins (before ++ c :: word ++ s)) (scanFrom (pos.advance (c :: word)) a)
      (scanFrom (.after (before ++ c :: word)) b)) :
    List.Forall₂ (Twins (before ++ c :: (word ++ s))) (scanFrom pos (c :: (word ++ a)))
      (scanFrom (.after before) (c :: (word ++ b))) := by
  rw [scanFrom_lexeme hc, scanFrom_lexeme hc, ha, hb, List.take_left, List.take_left,
    List.drop_left, List.drop_left, ← Position.after_append]
  have htwins : Twins (before ++ c :: (word ++ s)) ⟨kind, String.ofList (c :: word), pos⟩
      ⟨kind, String.ofList (c :: word), .after before⟩ :=
    ⟨rfl, rfl, hline, before, s, by simp, rfl⟩
  refine .cons htwins ?_
  simpa using hrest

/-- **Scanning finds the same lexemes without the comments as with blanks for them.** The induction
    is on the length of the source: a lexeme takes many characters at once. -/
theorem Cleared.forall₂_scanFrom {source stripped blanked : List Char}
    (h : Cleared source stripped blanked) (hline : pos.line = (Position.after before).line) :
    List.Forall₂ (Twins (before ++ source)) (scanFrom pos stripped)
      (scanFrom (.after before) blanked) := by
  induction hn : source.length using Nat.strongRecOn
    generalizing source stripped blanked before pos with
  | ind n ih =>
  have hblank : ∀ {c s a b}, Text.isBlank c = true → Cleared s a b → s.length < n →
      List.Forall₂ (Twins (before ++ c :: s)) (scanFrom pos (c :: a))
        (scanFrom (.after before) (c :: b)) := by
    intro c s a b hc hrest hlt
    have hlater := ih _ hlt hrest (line_advance_after [c] hline) rfl
    rw [scanFrom_blank hc, scanFrom_blank hc, ← Position.after_append_singleton,
      List.append_cons]
    exact hlater
  have hlexeme : ∀ {c kind word s a b}, Text.isBlank c = false →
      munch c (word ++ a) = (kind, word.length) → munch c (word ++ b) = (kind, word.length) →
      Cleared s a b → (word ++ s).length < n →
      List.Forall₂ (Twins (before ++ c :: (word ++ s))) (scanFrom pos (c :: (word ++ a)))
        (scanFrom (.after before) (c :: (word ++ b))) := by
    intro c kind word s a b hc ha hb hrest hlt
    rw [List.length_append] at hlt
    have hlater := ih _ (by omega) hrest (line_advance_after (c :: word) hline) rfl
    exact forall₂_lexeme hc hline ha hb hlater
  cases h with
  | same =>
    cases source with
    | nil =>
      rw [scanFrom_nil, scanFrom_nil]
      exact .nil
    | cons c cs =>
      have hlt : cs.length < n := hn ▸ Nat.lt_succ_self _
      by_cases hc : Text.isBlank c = true
      · exact hblank hc .same hlt
      · obtain ⟨kind, word, rest, rfl, hmunch⟩ := exists_munch_eq c cs
        exact hlexeme (Bool.eq_false_iff.mpr hc) hmunch hmunch .same hlt
  | @comment text left s a b comment ended rest =>
    have hshorter : s.length < n := by
      have hpositive := List.length_pos_iff.mpr comment.ne_nil
      rw [← hn, List.length_append]
      omega
    have hlines : (pos.advance left).line = (Position.after (before ++ text)).line := by
      rw [Position.after_append, Position.line_advance, Position.line_advance,
        comment.count_newlines, hline]
    have hrest := ih _ hshorter rest hlines rfl
    rw [scanFrom_blanks comment.isBlank, scanFrom_blanks fun c => isBlank_of_mem_clear, advance_clear,
      ← Position.after_append, ← List.append_assoc]
    exact hrest
  | @string body s a b plain rest =>
    have hlt : (body ++ ['"'] ++ s).length < n := hn ▸ Nat.lt_succ_self _
    exact hlexeme (by decide) (munch_string plain a) (munch_string plain b) rest hlt
  | @plain c s a b ne rest =>
    have hlt : s.length < n := hn ▸ Nat.lt_succ_self _
    by_cases hc : Text.isBlank c = true
    · exact hblank hc rest hlt
    · obtain ⟨kind, word, s, a, b, rfl, rfl, rfl, ha, hb, hrest⟩ := rest.exists_lexeme ne
      exact hlexeme (Bool.eq_false_iff.mpr hc) ha hb hrest hlt

/-- **Removing comments is blanking them.** The tokens of the text without its comments and those of
    the text with blanks for them are as many, and agree one by one in kind, text and line; and
    each stands on the line on which its lexeme stands in the text with its comments. -/
theorem scan_stripComments (source : String) :
    List.Forall₂ (Twins source.toList) (scan (stripComments source))
      (scan (blankComments source)) := by
  have hscan := (cleared_code source.toList).forall₂_scanFrom
    (show Position.start.line = (Position.after []).line from rfl)
  unfold scan stripComments blankComments
  rw [String.toList_ofList, String.toList_ofList]
  exact hscan

-- an opening that is no closing, quotes in comments and openings in a string
example :
    stripComments "a/*/ \"\n*/b // \"/*\n\"//\"/" = "a\n b \n\"//\"/" ∧
    blankComments "a/*/ \"\n*/b // \"/*\n\"//\"/" = "a     \n  b       \n\"//\"/" :=
  ⟨by cbv, by cbv⟩

end Source

end MiniC
