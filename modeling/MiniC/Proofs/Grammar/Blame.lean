import Mathlib
import MiniC.Proofs.Grammar.Resumption
import MiniC.Proofs.Token.Layout

/-!
# The order of syntax errors

An error is raised deep inside a statement and noted by the block around it, after the blocks inside
have noted theirs, and the token it is about may still be there when reading goes on. Nevertheless
the errors come in the order of the tokens they are about, and no token is blamed twice: a token that
was left in place is passed over by recovery, or is a brace that then closes the block
(`Reports`). Errors about the end of the input come last. Main statement: `Program.errors_in_order`.
-/

namespace MiniC

/-! ## 1. Errors along the tokens -/

/-- **The errors reported on the way from `ts` to `rest`**: each is about a token behind those of the
    errors before it, or about the end of the input, which is then reached. -/
inductive Reports : (ts : List Token) → (errors : List SyntaxError) → (rest : List Token) → Prop where
  | quiet {ts rest : List Token} (passed : rest <:+ ts) : Reports ts [] rest
  | token {ts later rest : List Token} {t : Token} {e : SyntaxError} {errors : List SyntaxError}
      (passed : t :: later <:+ ts) (found : e.found = some t) (next : Reports later errors rest) :
      Reports ts (e :: errors) rest
  | ended {ts : List Token} {e : SyntaxError} {errors : List SyntaxError}
      (found : e.found = none) (next : Reports [] errors []) : Reports ts (e :: errors) []

namespace Reports

variable {ts us rest : List Token} {errors later : List SyntaxError} {e : SyntaxError}

theorem of_suffix (h : Reports us errors rest) (hs : us <:+ ts) : Reports ts errors rest := by
  cases h with
  | quiet passed => exact .quiet (passed.trans hs)
  | token passed found next => exact .token (passed.trans hs) found next
  | ended found next => exact .ended found next

theorem suffix (h : Reports ts errors rest) : rest <:+ ts := by
  induction h with
  | quiet passed => exact passed
  | token passed _ _ ih => exact ih.trans ((List.suffix_cons _ _).trans passed)
  | ended _ _ _ => exact List.nil_suffix

/-- Reading on reports further errors. -/
theorem append (h : Reports ts errors us) (h' : Reports us later rest) :
    Reports ts (errors ++ later) rest := by
  induction h with
  | quiet passed => exact h'.of_suffix passed
  | token passed found _ ih => exact .token passed found (ih h')
  | ended found _ ih =>
    have hrest : rest = [] := List.suffix_nil.mp h'.suffix
    subst hrest
    exact .ended found (ih h')

/-- An error is about the first of the tokens `us`; from behind that token on, nothing is blamed
    yet. -/
theorem snoc (h : Reports ts errors us) (hfound : e.found = us.head?) (hrest : rest <:+ us.tail) :
    Reports ts (errors ++ [e]) rest := by
  refine h.append ?_
  cases us with
  | nil =>
    rw [List.suffix_nil.mp hrest]
    exact .ended hfound (.quiet (List.suffix_refl _))
  | cons t us => exact .token (List.suffix_refl _) hfound (.quiet hrest)

/-- An error about the end of the input is reported only when the end has been reached. -/
theorem rest_eq_nil (h : Reports ts errors rest) (he : e ∈ errors) (hfound : e.found = none) :
    rest = [] := by
  induction h with
  | quiet _ => exact absurd he List.not_mem_nil
  | token _ found _ ih =>
    rcases List.mem_cons.mp he with rfl | he
    · exact absurd (found.symm.trans hfound) (by simp)
    · exact ih he
  | ended _ _ _ => rfl

/-- At the end of the input every error is about the end. -/
theorem found_of_nil (h : Reports [] errors rest) : ∀ e ∈ errors, e.found = none := by
  generalize hts : ([] : List Token) = ts at h
  induction h with
  | quiet _ => exact List.forall_mem_nil _
  | token passed _ _ _ =>
    rw [← hts] at passed
    exact absurd (List.suffix_nil.mp passed) (by simp)
  | ended found _ ih => exact List.forall_mem_cons.mpr ⟨found, ih rfl⟩

/-- The tokens that are blamed stand in this order in the input. -/
theorem found_sublist (h : Reports ts errors rest) :
    (errors.filterMap SyntaxError.found).Sublist ts := by
  induction h with
  | quiet _ => exact List.nil_sublist _
  | token passed found _ ih =>
    rw [List.filterMap_cons_some found]
    exact (ih.cons_cons _).trans passed.sublist
  | ended found _ ih =>
    rw [List.filterMap_cons_none found]
    exact ih.trans (List.nil_sublist _)

end Reports

/-! ## 2. What an error says about its token -/

/-- The message quotes the text. -/
def Quotes (message text : String) : Prop :=
  ∃ before after, message = before ++ "'" ++ text ++ "'" ++ after

/-- The error is about the token: it gives its line and quotes its text. -/
structure SyntaxError.About (e : SyntaxError) (t : Token) : Prop where
  line_eq : e.line = some t.line
  quotes : Quotes e.message t.text

theorem SyntaxError.about_of_found {e : SyntaxError} {t : Token} (h : e.found = some t) :
    e.About t := by
  refine ⟨by rw [SyntaxError.line, h]; rfl, ?_⟩
  unfold SyntaxError.message
  rw [h]
  cases e.expected with
  | statement => exact ⟨"Invalid statement starting with ", "", by simp [String.append_assoc]⟩
  | expression => exact ⟨"Unexpected token ", " in expression", by simp [String.append_assoc]⟩
  | text _ => exact ⟨"Expected " ++ _ ++ " but found ", "", by simp [String.append_assoc]; rfl⟩
  | kind _ => exact ⟨"Expected " ++ _ ++ " but found ", "", by simp [String.append_assoc]; rfl⟩
  | returnType => exact ⟨"Expected " ++ _ ++ " but found ", "", by simp [String.append_assoc]; rfl⟩

theorem SyntaxError.line_eq_none_iff {e : SyntaxError} : e.line = none ↔ e.found = none := by
  rw [SyntaxError.line, Option.map_eq_none_iff]

/-- **The errors come in the order of the tokens**: first those with a line, each about a token of
    its own and these tokens in their order, and then those about the end of the input. -/
def SyntaxError.InOrder (ts : List Token) (errors : List SyntaxError) : Prop :=
  ∃ located atEnd positions, errors = located ++ atEnd ∧ (∀ e ∈ atEnd, e.line = none) ∧
    positions.Pairwise (· < ·) ∧
    List.Forall₂ (fun (e : SyntaxError) (i : Nat) => ∃ t, ts[i]? = some t ∧ e.About t)
      located positions

theorem Reports.inOrder {ts rest : List Token} {errors : List SyntaxError}
    (h : Reports ts errors rest) : SyntaxError.InOrder ts errors := by
  induction h with
  | quiet _ => exact ⟨[], [], [], rfl, List.forall_mem_nil _, .nil, .nil⟩
  | ended found next _ =>
    refine ⟨[], _, [], rfl, fun e he => SyntaxError.line_eq_none_iff.mpr ?_, .nil, .nil⟩
    rcases List.mem_cons.mp he with rfl | he
    · exact found
    · exact next.found_of_nil e he
  | @token ts later _ t e _ passed found _ ih =>
    obtain ⟨before, rfl⟩ := passed
    obtain ⟨located, atEnd, positions, rfl, hend, hpairwise, hall⟩ := ih
    -- positions among the later tokens, counted from the start
    let shift : Nat → Nat := fun i => before.length + 1 + i
    refine ⟨e :: located, atEnd, before.length :: positions.map shift, rfl, hend, ?_, ?_⟩
    · refine List.pairwise_cons.mpr ⟨fun i hi => ?_, List.pairwise_map.mpr ?_⟩
      · obtain ⟨j, -, rfl⟩ := List.mem_map.mp hi
        show before.length < before.length + 1 + j
        omega
      · exact hpairwise.imp fun hij => Nat.add_lt_add_left hij _
    · refine .cons ⟨t, by simp, SyntaxError.about_of_found found⟩ ?_
      refine List.forall₂_map_right_iff.mpr (hall.imp fun e' i => ?_)
      rintro ⟨u, hu, habout⟩
      refine ⟨u, ?_, habout⟩
      show (before ++ t :: later)[before.length + 1 + i]? = some u
      rw [List.getElem?_append_right (by omega),
        show before.length + 1 + i - before.length = i + 1 by omega, List.getElem?_cons_succ]
      exact hu

/-! ## 3. Tolerant readings -/

section Tolerant

variable {α β : Type} {ts : List Token}

/-- The error that a reading failed with. -/
def Reading.failure (r : Reading ts α) : Option SyntaxError :=
  match r.result with
  | .ok _ => none
  | .error e => some e

theorem Reading.failure_of_ok {r : Reading ts α} {value : α} (h : r.result = .ok value) :
    r.failure = none := by
  rw [failure, h]

theorem Reading.failure_of_error {r : Reading ts α} {e : SyntaxError} (h : r.result = .error e) :
    r.failure = some e := by
  rw [failure, h]

theorem Reading.failure_congr {us : List Token} {r : Reading ts α} {r' : Reading us β} {f : β → α}
    (h : r.result = r'.result.map f) : r.failure = r'.failure := by
  rw [failure, h, failure]
  cases r'.result <;> rfl

/-- The errors that a tolerant reading went on after, in the order met. -/
def Tolerant.errors (r : Tolerant ts α) : List SyntaxError := r.faults.map Fault.error

/-- **How reading ends that went on after `errors`**: it succeeds and leaves `rest`, or it fails with
    an error about the first of the tokens `blamed`, which none of the others is about. -/
inductive Concludes (ts : List Token) (errors : List SyntaxError) :
    (failure : Option SyntaxError) → (rest : List Token) → Prop where
  | read {rest : List Token} (reports : Reports ts errors rest) : Concludes ts errors none rest
  | failed {blamed : List Token} {e : SyntaxError} (reports : Reports ts errors blamed)
      (found : e.found = blamed.head?) : Concludes ts errors (some e) (e.leaves blamed)

theorem Concludes.append {us rest : List Token} {errors later : List SyntaxError}
    {failure : Option SyntaxError} (h : Reports ts errors us) (h' : Concludes us later failure rest) :
    Concludes ts (errors ++ later) failure rest := by
  cases h' with
  | read reports => exact .read (h.append reports)
  | failed reports found => exact .failed (h.append reports) found

theorem Concludes.of_suffix {us rest : List Token} {errors : List SyntaxError}
    {failure : Option SyntaxError} (h : Concludes us errors failure rest) (hs : us <:+ ts) :
    Concludes ts errors failure rest := by
  have hquiet : Reports ts [] us := .quiet hs
  exact .append hquiet h

/-- **A tolerant reading reports its errors in order.** -/
def Tolerant.Reported (r : Tolerant ts α) : Prop := Concludes ts r.errors r.failure r.rest

theorem Reading.Blames.reported {r : Reading ts α} (h : r.Blames) : r.tolerant.Reported := by
  show Concludes ts [] r.failure r.rest
  cases hresult : r.result with
  | ok value =>
    rw [failure_of_ok hresult]
    exact .read (.quiet r.suffix)
  | error e =>
    obtain ⟨blamed, hblamed, hfound, hrest⟩ := h e hresult
    rw [failure_of_error hresult, hrest]
    exact .failed (.quiet hblamed) hfound

namespace Tolerant

theorem Reported.after {r : Tolerant ts α} (h : r.Reported) (t : Token) : (r.after t).Reported :=
  Concludes.of_suffix h (List.suffix_cons t ts)

theorem Reported.map {r : Tolerant ts α} (h : r.Reported) (f : α → β) : (r.map f).Reported := by
  have hfailure : (r.map f).failure = r.failure := Reading.failure_congr rfl
  rw [Reported, hfailure]
  exact h

/-- What a reading that succeeds has reported. -/
theorem Reported.reports {r : Tolerant ts α} (h : r.Reported) {value : α}
    (hvalue : r.result = .ok value) : Reports ts r.errors r.rest := by
  rw [Reported, Reading.failure_of_ok hvalue] at h
  cases h with
  | read reports => exact reports

theorem Reported.exists_blamed {r : Tolerant ts α} (h : r.Reported) {e : SyntaxError}
    (he : r.result = .error e) :
    ∃ blamed, Reports ts r.errors blamed ∧ e.found = blamed.head? ∧ r.rest = e.leaves blamed := by
  rw [Reported, Reading.failure_of_error he] at h
  generalize r.rest = rest at h ⊢
  cases h with
  | failed reports found => exact ⟨_, reports, found, rfl⟩

theorem Reported.andThen {r : Tolerant ts α} (h : r.Reported)
    {next : α → (rest : List Token) → rest.length ≤ ts.length → Tolerant rest β}
    (hnext : ∀ value rest hle, (next value rest hle).Reported) : (r.andThen next).Reported := by
  unfold Reported errors
  cases hresult : r.result with
  | error e =>
    obtain ⟨hreading, hfaults⟩ := andThen_of_error hresult next
    rw [hreading, hfaults, Reading.failure_of_error rfl, ← Reading.failure_of_error hresult]
    exact h
  | ok value =>
    obtain ⟨hreading, hfaults⟩ := andThen_of_ok hresult next
    rw [hreading, hfaults, List.map_append]
    exact .append (h.reports hresult) (hnext value r.rest r.suffix.length_le)

/-- A failure about the end of the input leaves no tokens. -/
theorem Reported.rest_eq_nil {r : Tolerant ts α} (h : r.Reported) {e : SyntaxError}
    (he : r.result = .error e) (hline : e.line = none) : r.rest = [] := by
  obtain ⟨blamed, -, hfound, hrest⟩ := h.exists_blamed he
  rw [SyntaxError.line_eq_none_iff.mp hline] at hfound
  have hblamed : blamed = [] := List.head?_eq_none_iff.mp hfound.symm
  rw [hrest, hblamed, SyntaxError.leaves, List.tail_nil, ite_self]

end Tolerant

end Tolerant

/-! ## 4. Statements -/

/-- Recovery passes the blamed token, unless that was left in place and is a closing brace. -/
theorem recover_leaves_cases (e : SyntaxError) (blamed : List Token) :
    recover (e.leaves blamed) <:+ blamed.tail ∨
      ∃ b us, blamed = b :: us ∧ b.is .separator Token.closeBrace = true ∧
        recover (e.leaves blamed) = b :: us := by
  unfold SyntaxError.leaves
  cases e.expected.skipsFound with
  | true => exact .inl (recover_suffix _)
  | false =>
    cases blamed with
    | nil => exact .inl (recover_suffix [])
    | cons b us =>
      cases hb : b.is .separator Token.closeBrace with
      | true =>
        refine .inr ⟨b, us, rfl, hb, ?_⟩
        exact (@StatementEnd.brace [] us b (List.forall_mem_nil _) hb).eq_recover.symm
      | false => exact .inl (recover_cons_suffix hb us)

namespace Stmt

theorem read_reported_of {ts : List Token} (h : ∀ opening, (readOpened opening ts).Reported)
    (t : Token) : (read (t :: ts)).Reported := by
  cases hopening : Opening.of? t ts with
  | none =>
    rw [read_of_none hopening]
    exact (Reading.blames_fail rfl).reported
  | some opening =>
    rw [read_of_some hopening]
    exact (h opening).after t

/-- A closing brace ends a block without an error. -/
theorem readAll_closeBrace {b : Token} (hb : b.is .separator Token.closeBrace = true)
    (us : List Token) :
    (readAll (b :: us)).failure = none ∧ (readAll (b :: us)).rest = us ∧
      (readAll (b :: us)).errors = [] := by
  rw [readAll, dif_pos hb]
  exact ⟨rfl, rfl, rfl⟩

/-- **After a failed statement its block is read on behind the blamed token**: recovery passed that
    token, or it is a brace that now closes the block. -/
theorem concludes_recover {ts blamed : List Token} {errors : List SyntaxError} {e : SyntaxError}
    (h : Reports ts errors blamed) (hfound : e.found = blamed.head?)
    (hlater : (readAll (recover (e.leaves blamed))).Reported) :
    Concludes ts (errors ++ e :: (readAll (recover (e.leaves blamed))).errors)
      (readAll (recover (e.leaves blamed))).failure
      (readAll (recover (e.leaves blamed))).rest := by
  rcases recover_leaves_cases e blamed with hpassed | ⟨b, us, rfl, hb, heq⟩
  · have hreports := h.snoc hfound hpassed
    rw [List.append_cons]
    exact .append hreports hlater
  · obtain ⟨hfailure, hrest, herrors⟩ := readAll_closeBrace hb us
    rw [heq, hfailure, hrest, herrors]
    exact .read (h.snoc hfound (List.suffix_refl us))

mutual

theorem readBlock_reported (ts : List Token) : (readBlock ts).Reported := by
  rw [readBlock]
  exact (blames_expect _ _ ts).reported.andThen fun _ rest hle => readAll_reported rest
termination_by (ts.length, 1)
decreasing_by all_goals omega

theorem readAll_reported (ts : List Token) : (readAll ts).Reported := by
  cases ts with
  | nil =>
    rw [readAll]
    exact (Reading.blames_fail_nil _).reported
  | cons t ts =>
    cases ht : t.is .separator Token.closeBrace with
    | true =>
      rw [readAll, dif_pos ht]
      exact ((Reading.blames_done _).after t).reported
    | false =>
      have hread := read_reported_of (fun opening => readOpened_reported opening ts) t
      unfold Tolerant.Reported Tolerant.errors
      cases hresult : (read (t :: ts)).result with
      | ok stmt =>
        have hle := (rest_read_suffix hresult).length_le
        obtain ⟨hall, hrest, hfaults⟩ := readAll_of_ok ht hresult
        have hlater := readAll_reported (read (t :: ts)).rest
        rw [Reading.failure_congr hall, hrest, hfaults, List.map_append]
        exact .append (hread.reports hresult) hlater
      | error e =>
        have hsuffix : recover (read (t :: ts)).rest <:+ ts := recover_rest_read_suffix ht
        have hle := hsuffix.length_le
        obtain ⟨hall, hrest, hfaults⟩ := readAll_of_error ht hresult
        have hlater := readAll_reported (recover (read (t :: ts)).rest)
        have hfailure : (readAll (t :: ts)).failure =
            (readAll (recover (read (t :: ts)).rest)).failure := by
          rw [Reading.failure, hall, Reading.failure]
        obtain ⟨blamed, hreports, hfound, hleft⟩ := hread.exists_blamed hresult
        rw [hfailure, hrest, hfaults, List.map_append, List.map_cons]
        rw [hleft] at hlater ⊢
        exact concludes_recover hreports hfound hlater
termination_by (ts.length, 0)
decreasing_by all_goals simp only [List.length_cons]; omega

theorem readOpened_reported (opening : Opening) (ts : List Token) :
    (readOpened opening ts).Reported := by
  cases opening with
  | declaration =>
    rw [readOpened]
    exact ((Declaration.read_blames ts).map _).reported
  | ret line =>
    rw [readOpened]
    exact ((Expr.readReturned_blames ts).map _).reported
  | call callee =>
    rw [readOpened]
    exact ((Expr.readArguments_blames ts).andThen fun _ rest _ =>
      (blames_expect _ _ rest).map _).reported
  | assignment target =>
    rw [readOpened]
    exact ((Assignment.readTo_blames target ts).andThen fun _ rest _ =>
      (blames_expect _ _ rest).map _).reported
  | branch =>
    rw [readOpened]
    exact (Expr.readCondition_blames ts).reported.andThen fun _ rest hle =>
      (readBlock_reported rest).andThen fun _ rest hle => (readElse_reported rest).map _
  | loop =>
    rw [readOpened]
    exact (LoopHead.read_blames ts).reported.andThen fun _ rest hle =>
      (readBlock_reported rest).map _
termination_by (ts.length, 3)
decreasing_by all_goals omega

theorem readElse_reported (ts : List Token) : (readElse ts).Reported := by
  cases ts with
  | nil =>
    rw [readElse]
    exact (Reading.blames_done none).reported
  | cons t ts =>
    rw [readElse]
    split
    · exact ((readBlock_reported ts).map some).after t
    · exact (Reading.blames_done none).reported
termination_by (ts.length, 2)
decreasing_by all_goals rw [List.length_cons]; omega

end

end Stmt

/-! ## 5. What a function fails with -/

section Skips

variable {α β : Type} {ts : List Token}

/-- **A reading that fails has skipped the token it blames.** Expressions and statements may leave
    it in place; the head of a function and its block do not. -/
def Reading.Skips (r : Reading ts α) : Prop :=
  ∀ e, r.result = .error e → e.expected.skipsFound = true

namespace Reading

theorem Skips.after {r : Reading ts α} (h : r.Skips) (t : Token) : (r.after t).Skips := h

theorem Skips.map {r : Reading ts α} (h : r.Skips) (f : α → β) : (r.map f).Skips := by
  intro e he
  cases hresult : r.result with
  | ok value =>
    rw [result_map, hresult] at he
    cases he
  | error e' =>
    rw [result_map, hresult] at he
    cases he
    exact h e hresult

theorem Skips.andThen {r : Reading ts α} (h : r.Skips)
    {next : α → (rest : List Token) → rest.length ≤ ts.length → Reading rest β}
    (hnext : ∀ value rest hle, (next value rest hle).Skips) : (r.andThen next).Skips := by
  intro e he
  cases hresult : r.result with
  | error e' =>
    rw [andThen_of_error hresult] at he
    cases he
    exact h e hresult
  | ok value =>
    rw [andThen_of_ok hresult] at he
    exact hnext value r.rest r.suffix.length_le e he

theorem Skips.ite {p : Prop} [Decidable p] {r₁ r₂ : Reading ts α} (h₁ : r₁.Skips)
    (h₂ : r₂.Skips) : (if p then r₁ else r₂).Skips := by
  split
  · exact h₁
  · exact h₂

end Reading

theorem Tolerant.skips_andThen {r : Tolerant ts α} (h : r.toReading.Skips)
    {next : α → (rest : List Token) → rest.length ≤ ts.length → Tolerant rest β}
    (hnext : ∀ value rest hle, (next value rest hle).toReading.Skips) :
    (r.andThen next).toReading.Skips := by
  intro e he
  cases hresult : r.result with
  | error e' =>
    rw [(andThen_of_error hresult next).1] at he
    cases he
    exact h e hresult
  | ok value =>
    rw [(andThen_of_ok hresult next).1] at he
    exact hnext value r.rest r.suffix.length_le e he

theorem skips_expect (kind : Token.Kind) (text : String) (ts : List Token) :
    (expect kind text ts).Skips := by
  intro e he
  cases ts with
  | nil =>
    cases he
    rfl
  | cons t ts =>
    cases ht : t.is kind text with
    | true =>
      rw [expect_of_is ht] at he
      cases he
    | false =>
      rw [expect_of_not ht] at he
      cases he
      rfl

theorem skips_expectKind (kind : Token.Kind) (ts : List Token) : (expectKind kind ts).Skips := by
  intro e he
  cases ts with
  | nil =>
    cases he
    rfl
  | cons t ts =>
    by_cases ht : t.kind = kind
    · subst ht
      rw [expectKind_of_eq] at he
      cases he
    · rw [expectKind_of_ne ht] at he
      cases he
      rfl

end Skips

/-- The statements of a block fail only when the input ends before the closing brace. -/
theorem Stmt.skips_readAll (ts : List Token) : (Stmt.readAll ts).toReading.Skips := by
  cases ts with
  | nil =>
    intro e he
    rw [readAll] at he
    cases he
    rfl
  | cons t ts =>
    intro e he
    cases ht : t.is .separator Token.closeBrace with
    | true =>
      rw [readAll, dif_pos ht] at he
      cases he
    | false =>
      cases hresult : (read (t :: ts)).result with
      | ok stmt =>
        have hle := (rest_read_suffix hresult).length_le
        obtain ⟨hall, -, -⟩ := readAll_of_ok ht hresult
        have hlater := Reading.Skips.map (Stmt.skips_readAll (read (t :: ts)).rest) (stmt :: ·)
        exact hlater e (hall.symm.trans he)
      | error e' =>
        have hsuffix : recover (read (t :: ts)).rest <:+ ts := recover_rest_read_suffix ht
        have hle := hsuffix.length_le
        obtain ⟨hall, -, -⟩ := readAll_of_error ht hresult
        exact Stmt.skips_readAll (recover (read (t :: ts)).rest) e (hall.symm.trans he)
termination_by ts.length
decreasing_by all_goals rw [List.length_cons]; omega

theorem Stmt.skips_readBlock (ts : List Token) : (Stmt.readBlock ts).toReading.Skips := by
  rw [readBlock]
  exact Tolerant.skips_andThen (skips_expect _ _ ts) fun _ rest _ => skips_readAll rest

theorem Param.skips_readSome (ts : List Token) : (Param.readSome ts).Skips := by
  rw [Param.readSome]
  refine (skips_expect _ _ ts).andThen fun _ rest hle => ?_
  refine (skips_expectKind _ rest).andThen fun name rest hle' => ?_
  cases rest with
  | nil => exact (skips_expect _ _ []).map _
  | cons t rest =>
    exact .ite (((Param.skips_readSome rest).map _).after t) ((skips_expect _ _ (t :: rest)).map _)
termination_by ts.length
decreasing_by simp only [List.length_cons] at *; omega

theorem Param.skips_readList (ts : List Token) : (Param.readList ts).Skips :=
  (skips_expect _ _ ts).andThen fun _ rest _ =>
    .ite ((skips_expect _ _ rest).map _) (Param.skips_readSome rest)

theorem Function.skips_read (type : TypeName) (ts : List Token) :
    (Function.read type ts).toReading.Skips :=
  Tolerant.skips_andThen (skips_expectKind _ ts) fun _ rest _ =>
    Tolerant.skips_andThen (Param.skips_readList rest) fun _ rest _ =>
      (Stmt.skips_readBlock rest).map _

/-! ## 6. Programs -/

theorem Function.read_reported (type : TypeName) (ts : List Token) :
    (Function.read type ts).Reported :=
  (blames_expectKind _ ts).reported.andThen fun _ rest _ =>
    (Param.readList_blames rest).reported.andThen fun _ rest _ =>
      (Stmt.readBlock_reported rest).map _

/-- A function that cannot be read has its last error behind it. -/
theorem Function.reports_of_error {type : TypeName} {ts : List Token} {e : SyntaxError}
    (he : (Function.read type ts).result = .error e) :
    Reports ts ((Function.read type ts).errors ++ [e]) (Function.read type ts).rest := by
  obtain ⟨blamed, hreports, hfound, hrest⟩ := (Function.read_reported type ts).exists_blamed he
  rw [SyntaxError.leaves, if_pos (Function.skips_read type ts e he)] at hrest
  rw [hrest]
  exact hreports.snoc hfound (List.suffix_refl _)

theorem TypeName.found_of_ofToken {t : Token} {e : SyntaxError}
    (h : TypeName.ofToken t = .error e) : e.found = some t := by
  unfold TypeName.ofToken at h
  split at h
  · split at h
    · cases h
    · split at h
      · cases h
      · cases h
        rfl
  · cases h
    rfl

/-- **A program's errors are reported in order.** -/
theorem Program.reports_read (ts : List Token) :
    Reports ts (Program.read ts).errors (Program.read ts).rest := by
  unfold Parse.errors
  fun_induction Program.read ts with
  | case1 => exact .quiet (List.suffix_refl _)
  | case2 t ts e htype =>
    exact .token (List.suffix_refl _) (TypeName.found_of_ofToken htype) (.quiet (List.suffix_refl _))
  | case3 t ts type htype function e hresult =>
    rw [List.map_append]
    exact (Function.reports_of_error hresult).of_suffix (List.suffix_cons t ts)
  | case4 t ts type htype function value hresult later ih =>
    rw [List.map_append]
    have hreports := (Function.read_reported type ts).reports hresult
    exact (hreports.of_suffix (List.suffix_cons t ts)).append ih

/-- The errors of readings that take up where the one before stopped. -/
theorem Program.reports_readRepeatedly (n : Nat) (ts : List Token) :
    ∃ rest, Reports ts ((Program.readRepeatedly n ts).flatMap Parse.errors) rest := by
  induction n generalizing ts with
  | zero => exact ⟨ts, .quiet (List.suffix_refl ts)⟩
  | succ n ih =>
    obtain ⟨rest, hlater⟩ := ih (Program.read ts).rest
    exact ⟨rest, (Program.reports_read ts).append hlater⟩

/-- One of the readings of a token list reads what the ones before it left. -/
theorem Program.exists_read_of_mem {n : Nat} {ts : List Token} {p : Parse}
    (h : p ∈ Program.readRepeatedly n ts) : ∃ us, us <:+ ts ∧ p = Program.read us := by
  induction n generalizing ts with
  | zero => exact absurd h List.not_mem_nil
  | succ n ih =>
    rcases List.mem_cons.mp h with rfl | h
    · exact ⟨ts, List.suffix_refl ts, rfl⟩
    · obtain ⟨us, hus, hp⟩ := ih h
      exact ⟨us, hus.trans (Program.reports_read ts).suffix, hp⟩

/-- What comes later in a text is on no earlier line. -/
theorem Position.Before.line_le {p q : Position} (h : p.Before q) : p.line ≤ q.line := by
  rcases h with hlt | ⟨heq, -⟩
  · exact Nat.le_of_lt hlt
  · exact Nat.le_of_eq heq

/-- **Syntax errors come in the order of the source, and no token is blamed twice.** This holds of
    any number of readings that take up where the one before stopped, taken together. An error
    about the end of the input is raised only where no tokens are left, by a statement, by a
    function, and so in a whole reading. In a text the lines of the errors never go back. -/
theorem Program.errors_in_order (n : Nat) (ts : List Token) :
    SyntaxError.InOrder ts ((Program.readRepeatedly n ts).flatMap Parse.errors) ∧
    (∀ p ∈ Program.readRepeatedly n ts, ∀ e ∈ p.errors, e.line = none → p.rest = []) ∧
    (∀ t us e, t :: us <:+ ts → (Stmt.read (t :: us)).result = .error e → e.line = none →
      (Stmt.read (t :: us)).rest = []) ∧
    (∀ type us e, us <:+ ts → (Function.read type us).result = .error e → e.line = none →
      (Function.read type us).rest = []) ∧
    (∀ source, ts = Token.scan source →
      (((Program.readRepeatedly n ts).flatMap Parse.errors).filterMap SyntaxError.line).Pairwise
        (· ≤ ·)) := by
  obtain ⟨rest, hreports⟩ := Program.reports_readRepeatedly n ts
  refine ⟨hreports.inOrder, fun p hp e he hline => ?_, fun t us e _ he hline => ?_,
    fun type us e _ he hline => (Function.read_reported type us).rest_eq_nil he hline, ?_⟩
  · obtain ⟨us, -, rfl⟩ := Program.exists_read_of_mem hp
    exact (Program.reports_read us).rest_eq_nil he (SyntaxError.line_eq_none_iff.mp hline)
  · have hread := Stmt.read_reported_of (fun opening => Stmt.readOpened_reported opening us) t
    exact hread.rest_eq_nil he hline
  · rintro source rfl
    have hsorted := (Token.pairwise_before_scanFrom .start source.toList).sublist
      hreports.found_sublist
    have hlines : ((Program.readRepeatedly n (Token.scan source)).flatMap Parse.errors).filterMap
        SyntaxError.line = (((Program.readRepeatedly n (Token.scan source)).flatMap
          Parse.errors).filterMap SyntaxError.found).map Token.line := by
      rw [List.map_filterMap]
      rfl
    rw [hlines, List.pairwise_map]
    exact hsorted.imp Position.Before.line_le

/-- A brace in place of a value, which then closes its block, and a function that breaks off. -/
def braceForValue : String := "int f() \x7b x = \x7d\nint g() \x7b y ="

theorem Program.errors_in_order_braceForValue :
    ((Program.readRepeatedly 2 (Token.scan braceForValue)).flatMap Parse.errors).map
        SyntaxError.line = [some 1, none, none] ∧
      SyntaxError.InOrder (Token.scan braceForValue)
        ((Program.readRepeatedly 2 (Token.scan braceForValue)).flatMap Parse.errors) ∧
      (Program.read (Token.scan braceForValue)).rest = [] := by
  have herrors : (Program.read (Token.scan braceForValue)).errors =
      [⟨.expression, some ⟨.separator, Token.closeBrace, ⟨1, 15⟩⟩⟩, ⟨.expression, none⟩,
        ⟨.text Token.closeBrace, none⟩] := by cbv
  obtain ⟨horder, hended, -⟩ := Program.errors_in_order 2 (Token.scan braceForValue)
  have hrest := hended (Program.read (Token.scan braceForValue)) List.mem_cons_self
    ⟨.expression, none⟩ (by rw [herrors]; simp) rfl
  refine ⟨by cbv, horder, hrest⟩

end MiniC
