import MiniC.Diagnostic
import MiniC.Proofs.Token.Lexeme

/-!
# The layout of a text

A text is its tokens with gaps of blanks around them. Scanning takes the text apart in this way
without a loss: the lexemes and the gaps put together again are the text, and each token stands
where its position says.

A scanner that tries the rules of a table one after another fails at a character that no rule takes
(`Token.scanBy`). The table of the language is closed by a rule that takes any character, so this
scanner never fails, and comes to what scanning without the table comes to.

Main statement: `Token.scan_layout`.
-/

namespace MiniC

/-! ## 1. Positions and what stands before them -/

namespace Position

/-- The position after the characters `before`: one line for each newline, and one column for each
    character since the last newline, or since the start. -/
def after (before : List Char) : Position :=
  ⟨1 + before.count '\n', 1 + (before.reverse.takeWhile (· ≠ '\n')).length⟩

theorem after_append_singleton (before : List Char) (c : Char) :
    after (before ++ [c]) = (after before).next c := by
  unfold after next
  rw [List.reverse_append, List.count_append]
  by_cases h : c = '\n'
  · simp [h, Nat.add_assoc]
  · simp [h, Nat.add_comm]

/-- Stepping over a text ends at the position after it. -/
theorem after_append (before cs : List Char) : after (before ++ cs) = (after before).advance cs := by
  induction cs generalizing before with
  | nil => rw [List.append_nil, advance_nil]
  | cons c cs ih =>
    have hsplit : before ++ c :: cs = (before ++ [c]) ++ cs := by simp
    rw [hsplit, ih, after_append_singleton, advance_cons]

/-- The order in which a text is read. -/
def Before (p q : Position) : Prop := p.line < q.line ∨ p.line = q.line ∧ p.column < q.column

theorem Before.trans {p q r : Position} (h : p.Before q) (h' : q.Before r) : p.Before r := by
  unfold Before at *
  omega

theorem before_next (pos : Position) (c : Char) : pos.Before (pos.next c) := by
  unfold Before next
  by_cases h : c = '\n'
  · rw [if_pos h]
    exact .inl (Nat.lt_succ_self _)
  · rw [if_neg h]
    exact .inr ⟨rfl, Nat.lt_succ_self _⟩

/-- Every character moves the position on. -/
theorem before_advance_cons (pos : Position) (c : Char) (cs : List Char) :
    pos.Before (pos.advance (c :: cs)) := by
  induction cs generalizing pos c with
  | nil => exact before_next pos c
  | cons d cs ih =>
    have hstep := before_next pos c
    have hrest := ih (pos.next c) d
    exact hstep.trans hrest

end Position

/-! ## 2. Texts and gaps -/

/-- Texts, each followed by its gap. -/
def weave : List String → List (List Char) → List Char
  | text :: texts, gap :: gaps => text.toList ++ gap ++ weave texts gaps
  | _, _ => []

namespace Token

/-- **How the tokens lie in a text** that comes after the characters `before`: a gap at the start,
    and one after each token. -/
structure Layout (before text : List Char) (tokens : List Token) (lead : List Char)
    (gaps : List (List Char)) : Prop where
  length_eq : gaps.length = tokens.length
  lead_blank : ∀ c ∈ lead, Text.isBlank c = true
  gaps_blank : ∀ gap ∈ gaps, ∀ c ∈ gap, Text.isBlank c = true
  text_eq : text = lead ++ weave (tokens.map Token.text) gaps
  starts : ∀ t ∈ tokens, ∃ c cs, t.text.toList = c :: cs ∧ Text.isBlank c = false
  pos_eq : ∀ (i : Nat) (t : Token), tokens[i]? = some t →
    t.pos = .after (before ++ lead ++ weave ((tokens.take i).map Token.text) (gaps.take i))

/-- Nothing is left to lay out. -/
theorem Layout.nil (before : List Char) : Layout before [] [] [] [] where
  length_eq := rfl
  lead_blank _ hc := absurd hc List.not_mem_nil
  gaps_blank _ hgap := absurd hgap List.not_mem_nil
  text_eq := rfl
  starts _ ht := absurd ht List.not_mem_nil
  pos_eq i t h := by cases h

/-- A blank before a text belongs to the gap at its start. -/
theorem Layout.blank {before text lead : List Char} {tokens : List Token} {gaps : List (List Char)}
    {c : Char} (hc : Text.isBlank c = true) (h : Layout (before ++ [c]) text tokens lead gaps) :
    Layout before (c :: text) tokens (c :: lead) gaps where
  length_eq := h.length_eq
  lead_blank := List.forall_mem_cons.mpr ⟨hc, h.lead_blank⟩
  gaps_blank := h.gaps_blank
  text_eq := by
    have htext := h.text_eq
    rw [htext, List.cons_append]
  starts := h.starts
  pos_eq i t ht := by
    have hpos := h.pos_eq i t ht
    rw [hpos]
    simp only [List.append_assoc, List.cons_append, List.nil_append]

/-- A lexeme before a text is its first token, and the gap at the start of the text follows it. -/
theorem Layout.lexeme {before text lead cs : List Char} {tokens : List Token}
    {gaps : List (List Char)} {c : Char} (kind : Kind) (hc : Text.isBlank c = false)
    (h : Layout (before ++ c :: cs) text tokens lead gaps) :
    Layout before (c :: cs ++ text) (⟨kind, String.ofList (c :: cs), .after before⟩ :: tokens) []
      (lead :: gaps) where
  length_eq := by
    have hlength := h.length_eq
    rw [List.length_cons, List.length_cons, hlength]
  lead_blank _ hmem := absurd hmem List.not_mem_nil
  gaps_blank := List.forall_mem_cons.mpr ⟨h.lead_blank, h.gaps_blank⟩
  text_eq := by
    have htext := h.text_eq
    rw [List.map_cons, weave, String.toList_ofList, htext, List.nil_append, List.append_assoc]
  starts := List.forall_mem_cons.mpr ⟨⟨c, cs, String.toList_ofList, hc⟩, h.starts⟩
  pos_eq i t ht := by
    cases i with
    | zero =>
      rw [List.getElem?_cons_zero, Option.some.injEq] at ht
      rw [← ht]
      simp [weave]
    | succ i =>
      have hpos := h.pos_eq i t ht
      rw [hpos, List.take_succ_cons, List.take_succ_cons, List.map_cons, weave,
        String.toList_ofList]
      simp only [List.append_assoc, List.append_nil, List.cons_append]

/-! ## 3. Scanning by a table of rules -/

/-- Any character is a lexeme. -/
def Rule.any : Rule := fun _ _ => some 0

/-- The lexical rules, and the rule for what they leave. -/
def closedRules : List (Kind × Rule) := rules ++ [(.mismatch, Rule.any)]

/-- The kind and length of the lexeme by the first rule of the table that answers, if one does. -/
def munchBy? (table : List (Kind × Rule)) (c : Char) (cs : List Char) : Option (Kind × Nat) :=
  table.findSome? fun (kind, rule) => (rule c cs).map fun n => (kind, n)

/-- The tokens by the rules of the table, or the first character that none of them takes. -/
def scanFromBy (table : List (Kind × Rule)) (pos : Position) :
    List Char → Except Diagnostic (List Token)
  | [] => .ok []
  | c :: cs =>
    if Text.isBlank c then scanFromBy table (pos.next c) cs
    else
      match munchBy? table c cs with
      | none => .error (.lexical c pos)
      | some found =>
        let lexeme := c :: cs.take found.2
        (scanFromBy table (pos.advance lexeme) (cs.drop found.2)).map
          (⟨found.1, String.ofList lexeme, pos⟩ :: ·)
termination_by cs => cs.length
decreasing_by
  · exact Nat.lt_succ_self _
  · exact Nat.lt_succ_of_le (List.drop_suffix _ _).length_le

/-- The tokens of a source text by the rules of the table. -/
def scanBy (table : List (Kind × Rule)) (source : String) : Except Diagnostic (List Token) :=
  scanFromBy table Position.start source.toList

/-- With the last rule, some rule always answers. -/
theorem munchBy?_closedRules (c : Char) (cs : List Char) :
    munchBy? closedRules c cs = some (munch c cs) := by
  rw [munchBy?, closedRules, List.findSome?_append, munch]
  cases rules.findSome? fun (kind, rule) => (rule c cs).map fun n => (kind, n) with
  | none => rfl
  | some found => rfl

theorem scanFromBy_closedRules (pos : Position) (cs : List Char) :
    scanFromBy closedRules pos cs = .ok (scanFrom pos cs) := by
  fun_induction scanFrom pos cs with
  | case1 pos => rw [scanFromBy]
  | case2 pos c cs hblank ih => rw [scanFromBy, if_pos hblank, ih]
  | case3 pos c cs hblank found lexeme ih =>
    rw [scanFromBy, if_neg hblank, munchBy?_closedRules]
    exact congrArg (Except.map _) ih

/-- **No character stops the scanner.** -/
theorem scanBy_closedRules (source : String) : scanBy closedRules source = .ok (scan source) :=
  scanFromBy_closedRules Position.start source.toList

example : scanBy rules "a @" = .error (.lexical '@' ⟨1, 3⟩) := by cbv

/-! ## 4. Scanning -/

/-- The tokens found after the characters `before` lie in the text. -/
theorem exists_layout_scanFrom (text before : List Char) :
    ∃ lead gaps, Layout before text (scanFrom (.after before) text) lead gaps := by
  generalize hpos : Position.after before = pos
  fun_induction scanFrom pos text generalizing before with
  | case1 => exact ⟨[], [], .nil before⟩
  | case2 pos c cs hblank ih =>
    have hnext : Position.after (before ++ [c]) = pos.next c := by
      rw [Position.after_append_singleton, hpos]
    obtain ⟨lead, gaps, hlayout⟩ := ih (before ++ [c]) hnext
    exact ⟨c :: lead, gaps, hlayout.blank hblank⟩
  | case3 pos c cs hblank found lexeme ih =>
    have hnext : Position.after (before ++ lexeme) = pos.advance lexeme := by
      rw [Position.after_append, hpos]
    obtain ⟨lead, gaps, hlayout⟩ := ih (before ++ lexeme) hnext
    have hfirst := hlayout.lexeme found.1 (Bool.eq_false_iff.mpr hblank)
    rw [hpos, List.cons_append, List.take_append_drop] at hfirst
    exact ⟨[], lead :: gaps, hfirst⟩

/-- What is found from a position on stands there or later. -/
theorem before_of_mem_scanFrom {t : Token} (pos : Position) (cs : List Char)
    (h : t ∈ scanFrom pos cs) : t.pos = pos ∨ pos.Before t.pos := by
  fun_induction scanFrom pos cs with
  | case1 => cases h
  | case2 pos c cs _ ih =>
    have hstep := Position.before_next pos c
    rcases ih h with heq | hlater
    · rw [heq]
      exact .inr hstep
    · exact .inr (hstep.trans hlater)
  | case3 pos c cs _ found lexeme ih =>
    rcases List.mem_cons.mp h with rfl | h
    · exact .inl rfl
    · have hstep := Position.before_advance_cons pos c (cs.take found.2)
      rcases ih h with heq | hlater
      · rw [heq]
        exact .inr hstep
      · exact .inr (hstep.trans hlater)

/-- The positions of tokens grow along the text. -/
theorem pairwise_before_scanFrom (pos : Position) (cs : List Char) :
    (scanFrom pos cs).Pairwise fun t u => t.pos.Before u.pos := by
  fun_induction scanFrom pos cs with
  | case1 => exact .nil
  | case2 pos c cs _ ih => exact ih
  | case3 pos c cs _ found lexeme ih =>
    refine List.pairwise_cons.mpr ⟨fun u hu => ?_, ih⟩
    have hstep := Position.before_advance_cons pos c (cs.take found.2)
    rcases before_of_mem_scanFrom _ _ hu with heq | hlater
    · show pos.Before u.pos
      rw [heq]
      exact hstep
    · exact hstep.trans hlater

/-- **Scanning loses, invents and misplaces nothing.** The closed table of rules stops at no
    character, and every lexeme lies inside the text, so that a token list is found for every text;
    the text is that list with gaps of blanks between the tokens, each token stands where its
    position says, and the positions grow along the text. -/
theorem scan_layout (source : String) :
    scanBy closedRules source = .ok (scan source) ∧
    (∀ c cs, (munch c cs).2 ≤ cs.length) ∧
    (∃ lead gaps, Layout [] source.toList (scan source) lead gaps) ∧
    (scan source).Pairwise fun t u => t.pos.Before u.pos := by
  refine ⟨scanBy_closedRules source, fun c cs => (munch_sound c cs).1, ?_,
    pairwise_before_scanFrom _ _⟩
  exact exists_layout_scanFrom source.toList []

end Token

end MiniC
