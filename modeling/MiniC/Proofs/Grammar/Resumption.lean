import Mathlib
import MiniC.Grammar.Program
import MiniC.Token.Scan

/-!
# Going on after a failed statement

A statement that cannot be read is blamed on one token, or on the end of the input. A reader that
asked for a certain token skips the one it found instead; a reader that met a token which can start
no statement or expression leaves it in place (`Expected.skipsFound`). Recovery looks for the end of
the statement from there: it goes on after the first semicolon, or at the first closing brace,
whichever comes first (`StatementEnd`).

So the block is read on at the end of the statement, counted from the blamed token, except where
that token is itself the semicolon or the brace and was skipped: then the end that is found lies
behind it. Main statement: `Program.goesOn_at_statementEnd`.
-/

namespace MiniC

/-! ## 1. The end of a statement -/

/-- A semicolon ends a statement, and so does the brace that closes its block. -/
def Token.endsStatement (t : Token) : Bool :=
  t.is .separator ";" || t.is .separator Token.closeBrace

/-- **`later` is where reading goes on after a statement that `ts` is the rest of**: after the first
    semicolon, or at the first closing brace, whichever comes first, or at the end of the input. -/
inductive StatementEnd : (ts later : List Token) → Prop where
  | semicolon {skipped later : List Token} {s : Token}
      (hskipped : ∀ t ∈ skipped, t.endsStatement = false) (hs : s.is .separator ";" = true) :
      StatementEnd (skipped ++ s :: later) later
  | brace {skipped rest : List Token} {b : Token}
      (hskipped : ∀ t ∈ skipped, t.endsStatement = false)
      (hb : b.is .separator Token.closeBrace = true) :
      StatementEnd (skipped ++ b :: rest) (b :: rest)
  | endOfInput {skipped : List Token} (hskipped : ∀ t ∈ skipped, t.endsStatement = false) :
      StatementEnd skipped []

/-- Tokens that end no statement are passed over. -/
theorem StatementEnd.cons {t : Token} (ht : t.endsStatement = false) {ts later : List Token}
    (h : StatementEnd ts later) : StatementEnd (t :: ts) later := by
  cases h with
  | semicolon hskipped hs =>
    exact @semicolon (t :: _) _ _ (List.forall_mem_cons.mpr ⟨ht, hskipped⟩) hs
  | brace hskipped hb =>
    exact @brace (t :: _) _ _ (List.forall_mem_cons.mpr ⟨ht, hskipped⟩) hb
  | endOfInput hskipped => exact .endOfInput (List.forall_mem_cons.mpr ⟨ht, hskipped⟩)

/-- **Recovery finds the end of the statement.** -/
theorem statementEnd_recover (ts : List Token) : StatementEnd ts (recover ts) := by
  induction ts with
  | nil => exact .endOfInput (List.forall_mem_nil _)
  | cons t ts ih =>
    rw [recover]
    split
    case isTrue hs =>
      exact @StatementEnd.semicolon [] _ _ (List.forall_mem_nil _) hs
    case isFalse hs =>
      split
      case isTrue hb => exact @StatementEnd.brace [] _ _ (List.forall_mem_nil _) hb
      case isFalse hb =>
        have ht := Bool.or_eq_false_iff.mpr ⟨Bool.eq_false_iff.mpr hs, Bool.eq_false_iff.mpr hb⟩
        exact ih.cons ht

/-- Recovery takes a token unless it starts at a closing brace. -/
theorem recover_cons_suffix {t : Token} (h : t.is .separator Token.closeBrace = false)
    (ts : List Token) : recover (t :: ts) <:+ ts := by
  rcases List.suffix_cons_iff.mp (recover_suffix (t :: ts)) with heq | hsuffix
  · have hle := length_recover_cons_le h ts
    rw [heq, List.length_cons] at hle
    omega
  · exact hsuffix

theorem recover_append_of_skipped {skipped : List Token}
    (h : ∀ t ∈ skipped, t.endsStatement = false) (ts : List Token) :
    recover (skipped ++ ts) = recover ts := by
  induction skipped with
  | nil => rfl
  | cons t skipped ih =>
    obtain ⟨ht, h⟩ := List.forall_mem_cons.mp h
    obtain ⟨hs, hb⟩ := Bool.or_eq_false_iff.mp ht
    rw [List.cons_append, recover, if_neg (by simp [hs]), if_neg (by simp [hb]), ih h]

/-- A statement has one end. -/
theorem StatementEnd.eq_recover {ts later : List Token} (h : StatementEnd ts later) :
    later = recover ts := by
  cases h with
  | semicolon hskipped hs => rw [recover_append_of_skipped hskipped, recover, if_pos hs]
  | brace hskipped hb =>
    rw [recover_append_of_skipped hskipped, recover, if_neg ?_, if_pos hb]
    intro hs
    have htext := ((Token.is_iff _ _ _).mp hb).2.symm.trans ((Token.is_iff _ _ _).mp hs).2
    exact absurd htext (by decide)
  | endOfInput hskipped =>
    have hnil := recover_append_of_skipped hskipped []
    rw [List.append_nil] at hnil
    exact hnil.symm

/-! ## 2. One statement of a block -/

namespace Stmt

/-- The statement at the front of `ts`, from its first token on. -/
def read (ts : List Token) : Tolerant ts Stmt :=
  match ts with
  | [] => Reading.tolerant (.fail .statement)
  | t :: ts =>
    match Opening.of? t ts with
    | none => Reading.tolerant (.fail .statement)
    | some opening => (readOpened opening ts).after t

variable {t : Token} {ts : List Token}

theorem read_of_none (h : Opening.of? t ts = none) :
    read (t :: ts) = Reading.tolerant (.fail .statement) := by
  simp only [read, h]

theorem read_of_some {opening : Opening} (h : Opening.of? t ts = some opening) :
    read (t :: ts) = (readOpened opening ts).after t := by
  simp only [read, h]

/-- A statement that is read takes its first token. -/
theorem rest_read_suffix {stmt : Stmt} (h : (read (t :: ts)).result = .ok stmt) :
    (read (t :: ts)).rest <:+ ts := by
  cases hopening : Opening.of? t ts with
  | none =>
    rw [read_of_none hopening] at h
    cases h
  | some opening =>
    rw [read_of_some hopening]
    exact (readOpened opening ts).suffix

/-- Recovery takes the first token of a failed statement, unless that closes the block. -/
theorem recover_rest_read_suffix (ht : t.is .separator Token.closeBrace = false) :
    recover (read (t :: ts)).rest <:+ ts := by
  cases hopening : Opening.of? t ts with
  | none =>
    rw [read_of_none hopening]
    exact recover_cons_suffix ht ts
  | some opening =>
    rw [read_of_some hopening]
    exact (recover_suffix _).trans (readOpened opening ts).suffix

/-- The statements of a block go on after one that was read. -/
theorem readAll_of_ok (ht : t.is .separator Token.closeBrace = false) {stmt : Stmt}
    (h : (read (t :: ts)).result = .ok stmt) :
    (readAll (t :: ts)).result = (readAll (read (t :: ts)).rest).result.map (stmt :: ·) ∧
      (readAll (t :: ts)).rest = (readAll (read (t :: ts)).rest).rest ∧
      (readAll (t :: ts)).faults =
        (read (t :: ts)).faults ++ (readAll (read (t :: ts)).rest).faults := by
  rw [readAll, dif_neg (by simp [ht])]
  cases hopening : Opening.of? t ts with
  | none =>
    rw [read_of_none hopening] at h
    cases h
  | some opening =>
    rw [read_of_some hopening] at h ⊢
    have hresult : (readOpened opening ts).result = .ok stmt := h
    simp only [Tolerant.follow, hresult]
    exact ⟨rfl, rfl, rfl⟩

/-- **After a statement that could not be read, the block goes on where recovery leads**, and the
    fault is noted. -/
theorem readAll_of_error (ht : t.is .separator Token.closeBrace = false) {e : SyntaxError}
    (h : (read (t :: ts)).result = .error e) :
    (readAll (t :: ts)).result = (readAll (recover (read (t :: ts)).rest)).result ∧
      (readAll (t :: ts)).rest = (readAll (recover (read (t :: ts)).rest)).rest ∧
      (readAll (t :: ts)).faults =
        (read (t :: ts)).faults ++ ⟨e, .resumed (recoveryLength (read (t :: ts)).rest)⟩ ::
          (readAll (recover (read (t :: ts)).rest)).faults := by
  rw [readAll, dif_neg (by simp [ht])]
  cases hopening : Opening.of? t ts with
  | none =>
    rw [read_of_none hopening] at h ⊢
    have he : ⟨.statement, some t⟩ = e := Except.error.inj h
    subst he
    exact ⟨rfl, rfl, rfl⟩
  | some opening =>
    rw [read_of_some hopening] at h ⊢
    have hresult : (readOpened opening ts).result = .error e := h
    simp only [Tolerant.follow, hresult]
    exact ⟨rfl, rfl, rfl⟩

end Stmt

/-! ## 3. The token that is blamed -/

/-- Whether a reader skips the token it finds in place of what it expected. A token that can start
    no statement or expression is left in place. -/
def Expected.skipsFound : Expected → Bool
  | .text _ => true
  | .kind _ => true
  | .returnType => true
  | .statement => false
  | .expression => false

/-- The tokens that are left after the error, when `blamed` are the tokens from the one it is about
    on. -/
def SyntaxError.leaves (e : SyntaxError) (blamed : List Token) : List Token :=
  if e.expected.skipsFound then blamed.tail else blamed

/-- The error is about a token of `ts`, or about their end, and `rest` is what it leaves. -/
def SyntaxError.Blames (e : SyntaxError) (ts rest : List Token) : Prop :=
  ∃ blamed, blamed <:+ ts ∧ e.found = blamed.head? ∧ rest = e.leaves blamed

theorem SyntaxError.Blames.of_suffix {e : SyntaxError} {ts us rest : List Token}
    (h : e.Blames ts rest) (hs : ts <:+ us) : e.Blames us rest := by
  obtain ⟨blamed, hblamed, hfound, hrest⟩ := h
  exact ⟨blamed, hblamed.trans hs, hfound, hrest⟩

section Readings

variable {α β : Type} {ts : List Token}

/-- **A reading that fails tells which token is to blame**, and leaves what comes with it. -/
def Reading.Blames (r : Reading ts α) : Prop :=
  ∀ e, r.result = .error e → e.Blames ts r.rest

namespace Reading

theorem blames_done (value : α) : (done value : Reading ts α).Blames := by
  intro e he
  cases he

theorem blames_fail {expected : Expected} (h : expected.skipsFound = false) :
    (fail expected : Reading ts α).Blames := by
  intro e he
  cases he
  exact ⟨ts, List.suffix_refl ts, rfl, by rw [SyntaxError.leaves, h]; rfl⟩

theorem blames_fail_nil (expected : Expected) : (fail expected : Reading [] α).Blames := by
  intro e he
  cases he
  exact ⟨[], List.suffix_refl [], rfl, by rw [SyntaxError.leaves, List.tail_nil, ite_self]; rfl⟩

theorem Blames.after {r : Reading ts α} (h : r.Blames) (t : Token) : (r.after t).Blames :=
  fun e he => (h e he).of_suffix (List.suffix_cons t ts)

theorem Blames.map {r : Reading ts α} (h : r.Blames) (f : α → β) : (r.map f).Blames := by
  intro e he
  cases hresult : r.result with
  | ok value =>
    rw [result_map, hresult] at he
    cases he
  | error e' =>
    rw [result_map, hresult] at he
    cases he
    exact h e hresult

theorem Blames.andThen {r : Reading ts α} (h : r.Blames)
    {next : α → (rest : List Token) → rest.length ≤ ts.length → Reading rest β}
    (hnext : ∀ value rest hle, (next value rest hle).Blames) : (r.andThen next).Blames := by
  intro e he
  cases hresult : r.result with
  | error e' =>
    rw [andThen_of_error hresult] at he ⊢
    cases he
    exact h e hresult
  | ok value =>
    rw [andThen_of_ok hresult] at he ⊢
    exact (hnext value r.rest r.suffix.length_le e he).of_suffix r.suffix

theorem Blames.ite {p : Prop} [Decidable p] {r₁ r₂ : Reading ts α} (h₁ : r₁.Blames)
    (h₂ : r₂.Blames) : (if p then r₁ else r₂).Blames := by
  split
  · exact h₁
  · exact h₂

end Reading

theorem blames_expect (kind : Token.Kind) (text : String) (ts : List Token) :
    (expect kind text ts).Blames := by
  cases ts with
  | nil => exact Reading.blames_fail_nil _
  | cons t ts =>
    refine .ite ((Reading.blames_done t).after t) fun e he => ?_
    cases he
    exact ⟨t :: ts, List.suffix_refl _, rfl, rfl⟩

theorem blames_expectKind (kind : Token.Kind) (ts : List Token) :
    (expectKind kind ts).Blames := by
  cases ts with
  | nil => exact Reading.blames_fail_nil _
  | cons t ts =>
    refine .ite ((Reading.blames_done t).after t) fun e he => ?_
    cases he
    exact ⟨t :: ts, List.suffix_refl _, rfl, rfl⟩

end Readings

namespace Expr

mutual

theorem readLevel_blames (level : Nat) (ts : List Token) : (readLevel level ts).Blames := by
  match level with
  | 0 =>
    rw [readLevel]
    exact readUnary_blames ts
  | level + 1 =>
    rw [readLevel]
    exact (readLevel_blames level ts).andThen fun left rest hle => readChain_blames level left rest
termination_by (ts.length, level + 2)
decreasing_by all_goals omega

theorem readChain_blames (level : Nat) (left : Expr) (ts : List Token) :
    (readChain level left ts).Blames := by
  cases ts with
  | nil =>
    rw [readChain]
    exact Reading.blames_done left
  | cons t ts =>
    rw [readChain]
    cases t.binaryOp? with
    | none => exact Reading.blames_done left
    | some op =>
      refine .ite (Reading.Blames.after ?_ t) (Reading.blames_done left)
      exact (readLevel_blames level ts).andThen fun right rest hle =>
        readChain_blames level (.binary op left right) rest
termination_by (ts.length, 0)
decreasing_by all_goals rw [List.length_cons]; omega

theorem readUnary_blames (ts : List Token) : (readUnary ts).Blames := by
  cases ts with
  | nil =>
    rw [readUnary]
    exact Reading.blames_fail_nil _
  | cons t ts =>
    rw [readUnary]
    cases t.unaryOp? with
    | none => exact readPrimary_blames t ts
    | some op => exact ((readUnary_blames ts).map _).after t
termination_by (ts.length, 1)
decreasing_by all_goals simp only [List.length_cons]; omega

theorem readPrimary_blames (t : Token) (ts : List Token) : (readPrimary t ts).Blames := by
  rw [readPrimary]
  cases t.kind with
  | float | integer | string => exact (Reading.blames_done _).after t
  | operator | mismatch => exact Reading.blames_fail rfl
  | identifier =>
    exact .ite (((readArguments_blames ts).map _).after t) ((Reading.blames_done _).after t)
  | keyword =>
    exact .ite (((readArguments_blames ts).map _).after t) (Reading.blames_fail rfl)
  | separator =>
    refine .ite (Reading.Blames.after ?_ t) (Reading.blames_fail rfl)
    exact (readLevel_blames BinaryOp.levels ts).andThen fun e rest hle =>
      (blames_expect _ _ rest).map _
termination_by (ts.length + 1, 0)
decreasing_by all_goals omega

theorem readArguments_blames (ts : List Token) : (readArguments ts).Blames := by
  rw [readArguments]
  exact (blames_expect _ _ ts).andThen fun _ rest hle =>
    .ite ((blames_expect _ _ rest).map _) (readFirstArgument_blames rest)
termination_by (ts.length, BinaryOp.levels + 4)
decreasing_by all_goals omega

theorem readFirstArgument_blames (ts : List Token) : (readFirstArgument ts).Blames := by
  rw [readFirstArgument]
  exact (readLevel_blames BinaryOp.levels ts).andThen fun arg rest hle =>
    (readMoreArguments_blames rest).map _
termination_by (ts.length, BinaryOp.levels + 3)
decreasing_by all_goals omega

theorem readMoreArguments_blames (ts : List Token) : (readMoreArguments ts).Blames := by
  cases ts with
  | nil =>
    rw [readMoreArguments]
    exact (blames_expect _ _ []).map _
  | cons t ts =>
    rw [readMoreArguments]
    exact .ite ((readFirstArgument_blames ts).after t) ((blames_expect _ _ (t :: ts)).map _)
termination_by (ts.length, 0)
decreasing_by all_goals rw [List.length_cons]; omega

end

theorem read_blames (ts : List Token) : (read ts).Blames := readLevel_blames BinaryOp.levels ts

theorem readInit_blames (ts : List Token) : (readInit ts).Blames := by
  cases ts with
  | nil => exact Reading.blames_done none
  | cons t ts => exact .ite (((read_blames ts).map _).after t) (Reading.blames_done none)

theorem readReturned_blames (ts : List Token) : (readReturned ts).Blames := by
  refine .ite ((blames_expect _ _ ts).map _) ?_
  exact (read_blames ts).andThen fun value rest _ => (blames_expect _ _ rest).map _

theorem readCondition_blames (ts : List Token) : (readCondition ts).Blames :=
  (blames_expect _ _ ts).andThen fun _ rest _ =>
    (read_blames rest).andThen fun _ rest _ => (blames_expect _ _ rest).map _

end Expr

theorem Declaration.read_blames (ts : List Token) : (Declaration.read ts).Blames :=
  (blames_expectKind _ ts).andThen fun _ rest _ =>
    (Expr.readInit_blames rest).andThen fun _ rest _ => (blames_expect _ _ rest).map _

theorem Assignment.readTo_blames (target : Ident) (ts : List Token) :
    (Assignment.readTo target ts).Blames :=
  (blames_expect _ _ ts).andThen fun _ rest _ => (Expr.read_blames rest).map _

theorem Assignment.read_blames (ts : List Token) : (Assignment.read ts).Blames :=
  (blames_expectKind _ ts).andThen fun name rest _ => Assignment.readTo_blames name.ident rest

theorem LoopHead.read_blames (ts : List Token) : (LoopHead.read ts).Blames := by
  refine (blames_expect _ _ ts).andThen fun _ rest _ => ?_
  refine (blames_expect _ _ rest).andThen fun _ rest _ => ?_
  refine (Declaration.read_blames rest).andThen fun init rest _ => ?_
  refine (Expr.read_blames rest).andThen fun cond rest _ => ?_
  refine (blames_expect _ _ rest).andThen fun _ rest _ => ?_
  refine (Assignment.read_blames rest).andThen fun step rest _ => ?_
  exact (blames_expect _ _ rest).map _

/-! ## 4. Where the faults of a block come from -/

/-- The fault is that of a failed statement which starts at these tokens. -/
inductive Fault.StartsAt (fault : Fault) : List Token → Prop where
  | intro {t : Token} {us : List Token} (ht : t.is .separator Token.closeBrace = false)
      (failed : (Stmt.read (t :: us)).result = .error fault.error)
      (sequel : fault.sequel = .resumed (recoveryLength (Stmt.read (t :: us)).rest)) :
      fault.StartsAt (t :: us)

/-- The fault is that of a failed statement among `ts`. -/
def Fault.StartsIn (fault : Fault) (ts : List Token) : Prop :=
  ∃ body, body <:+ ts ∧ fault.StartsAt body

theorem Fault.StartsIn.of_suffix {fault : Fault} {ts us : List Token} (h : fault.StartsIn ts)
    (hs : ts <:+ us) : fault.StartsIn us := by
  obtain ⟨body, hbody, hstarts⟩ := h
  exact ⟨body, hbody.trans hs, hstarts⟩

section Tolerant

variable {α β : Type} {ts : List Token}

/-- **A tolerant reading accounts for its errors**: a failure blames a token, and every fault that
    it went on after is that of a failed statement. -/
structure Tolerant.Accounts (r : Tolerant ts α) : Prop where
  blames : r.toReading.Blames
  faults : ∀ fault ∈ r.faults, fault.StartsIn ts

theorem Reading.Blames.tolerant {r : Reading ts α} (h : r.Blames) : r.tolerant.Accounts :=
  ⟨h, fun _ hmem => absurd hmem List.not_mem_nil⟩

namespace Tolerant

theorem Accounts.after {r : Tolerant ts α} (h : r.Accounts) (t : Token) : (r.after t).Accounts :=
  ⟨h.blames.after t, fun fault hmem => (h.faults fault hmem).of_suffix (List.suffix_cons t ts)⟩

theorem Accounts.map {r : Tolerant ts α} (h : r.Accounts) (f : α → β) : (r.map f).Accounts :=
  ⟨h.blames.map f, h.faults⟩

theorem Accounts.andThen {r : Tolerant ts α} (h : r.Accounts)
    {next : α → (rest : List Token) → rest.length ≤ ts.length → Tolerant rest β}
    (hnext : ∀ value rest hle, (next value rest hle).Accounts) : (r.andThen next).Accounts := by
  cases hresult : r.result with
  | error e =>
    obtain ⟨hreading, hfaults⟩ := andThen_of_error hresult next
    constructor
    · rw [hreading]
      intro e' he'
      cases he'
      exact h.blames e hresult
    · rw [hfaults]
      exact h.faults
  | ok value =>
    obtain ⟨hreading, hfaults⟩ := andThen_of_ok hresult next
    have hlater := hnext value r.rest r.suffix.length_le
    constructor
    · rw [hreading]
      exact fun e he => (hlater.blames e he).of_suffix r.suffix
    · rw [hfaults]
      intro fault hmem
      rcases List.mem_append.mp hmem with hmem | hmem
      · exact h.faults fault hmem
      · exact (hlater.faults fault hmem).of_suffix r.suffix

end Tolerant

end Tolerant

namespace Stmt

theorem read_accounts_of {ts : List Token} (h : ∀ opening, (readOpened opening ts).Accounts)
    (t : Token) : (read (t :: ts)).Accounts := by
  cases hopening : Opening.of? t ts with
  | none =>
    rw [read_of_none hopening]
    exact (Reading.blames_fail rfl).tolerant
  | some opening =>
    rw [read_of_some hopening]
    exact (h opening).after t

mutual

theorem readBlock_accounts (ts : List Token) : (readBlock ts).Accounts := by
  rw [readBlock]
  exact (blames_expect _ _ ts).tolerant.andThen fun _ rest hle => readAll_accounts rest
termination_by (ts.length, 1)
decreasing_by all_goals omega

/-- The faults of a block are those met inside a statement, and one for each statement that could
    not be read. -/
theorem readAll_accounts (ts : List Token) : (readAll ts).Accounts := by
  cases ts with
  | nil =>
    rw [readAll]
    exact (Reading.blames_fail_nil _).tolerant
  | cons t ts =>
    cases ht : t.is .separator Token.closeBrace with
    | true =>
      rw [readAll, dif_pos ht]
      exact ((Reading.blames_done _).after t).tolerant
    | false =>
      have hread := read_accounts_of (fun opening => readOpened_accounts opening ts) t
      cases hresult : (read (t :: ts)).result with
      | ok stmt =>
        have hsuffix := rest_read_suffix hresult
        have hle := hsuffix.length_le
        obtain ⟨hall, hrest, hfaults⟩ := readAll_of_ok ht hresult
        have hlater := readAll_accounts (read (t :: ts)).rest
        have hsuffix := hsuffix.trans (List.suffix_cons t ts)
        constructor
        · intro e he
          rw [hrest]
          refine SyntaxError.Blames.of_suffix ?_ hsuffix
          exact hlater.blames.map (stmt :: ·) e (hall.symm.trans he)
        · rw [hfaults]
          intro fault hmem
          rcases List.mem_append.mp hmem with hmem | hmem
          · exact hread.faults fault hmem
          · exact (hlater.faults fault hmem).of_suffix hsuffix
      | error e =>
        have hsuffix : recover (read (t :: ts)).rest <:+ ts := recover_rest_read_suffix ht
        have hle := hsuffix.length_le
        obtain ⟨hall, hrest, hfaults⟩ := readAll_of_error ht hresult
        have hlater := readAll_accounts (recover (read (t :: ts)).rest)
        have hsuffix := hsuffix.trans (List.suffix_cons t ts)
        constructor
        · intro e' he'
          rw [hrest]
          exact (hlater.blames e' (hall.symm.trans he')).of_suffix hsuffix
        · rw [hfaults]
          intro fault hmem
          rcases List.mem_append.mp hmem with hmem | hmem
          · exact hread.faults fault hmem
          rcases List.mem_cons.mp hmem with rfl | hmem
          · exact ⟨t :: ts, List.suffix_refl _, .intro ht hresult rfl⟩
          · exact (hlater.faults fault hmem).of_suffix hsuffix
termination_by (ts.length, 0)
decreasing_by all_goals simp only [List.length_cons]; omega

theorem readOpened_accounts (opening : Opening) (ts : List Token) :
    (readOpened opening ts).Accounts := by
  cases opening with
  | declaration =>
    rw [readOpened]
    exact ((Declaration.read_blames ts).map _).tolerant
  | ret line =>
    rw [readOpened]
    exact ((Expr.readReturned_blames ts).map _).tolerant
  | call callee =>
    rw [readOpened]
    exact ((Expr.readArguments_blames ts).andThen fun _ rest _ =>
      (blames_expect _ _ rest).map _).tolerant
  | assignment target =>
    rw [readOpened]
    exact ((Assignment.readTo_blames target ts).andThen fun _ rest _ =>
      (blames_expect _ _ rest).map _).tolerant
  | branch =>
    rw [readOpened]
    exact (Expr.readCondition_blames ts).tolerant.andThen fun _ rest hle =>
      (readBlock_accounts rest).andThen fun _ rest hle => (readElse_accounts rest).map _
  | loop =>
    rw [readOpened]
    exact (LoopHead.read_blames ts).tolerant.andThen fun _ rest hle =>
      (readBlock_accounts rest).map _
termination_by (ts.length, 3)
decreasing_by all_goals omega

theorem readElse_accounts (ts : List Token) : (readElse ts).Accounts := by
  cases ts with
  | nil =>
    rw [readElse]
    exact (Reading.blames_done none).tolerant
  | cons t ts =>
    rw [readElse]
    split
    · exact ((readBlock_accounts ts).map some).after t
    · exact (Reading.blames_done none).tolerant
termination_by (ts.length, 2)
decreasing_by all_goals rw [List.length_cons]; omega

end

/-! ## 5. Where a block goes on -/

/-- **A block goes on at `later` after the statement at `body` failed with `e`**, which is about the
    first of the tokens `blamed`: from what the failure leaves on, `later` is the end of the
    statement, and the statements of the block are those that are read there. -/
structure GoesOn (body : List Token) (e : SyntaxError) (blamed later : List Token) : Prop where
  failed : (read body).result = .error e
  blamed_suffix : blamed <:+ body
  found : e.found = blamed.head?
  left : (read body).rest = e.leaves blamed
  statementEnd : StatementEnd (e.leaves blamed) later
  result : (readAll body).result = (readAll later).result
  rest : (readAll body).rest = (readAll later).rest
  faults : (readAll body).faults = (read body).faults ++
    ⟨e, .resumed ((e.leaves blamed).length - later.length)⟩ :: (readAll later).faults

theorem goesOn_of_error {t : Token} {ts blamed : List Token} {e : SyntaxError}
    (ht : t.is .separator Token.closeBrace = false) (he : (read (t :: ts)).result = .error e)
    (hblamed : blamed <:+ t :: ts) (hfound : e.found = blamed.head?)
    (hleft : (read (t :: ts)).rest = e.leaves blamed) :
    GoesOn (t :: ts) e blamed (recover (e.leaves blamed)) := by
  obtain ⟨hresult, hrest, hfaults⟩ := readAll_of_error ht he
  rw [recoveryLength, hleft] at hfaults
  rw [hleft] at hresult hrest
  exact ⟨he, hblamed, hfound, hleft, statementEnd_recover _, hresult, hrest, hfaults⟩

theorem exists_goesOn {t : Token} {ts : List Token} {e : SyntaxError}
    (ht : t.is .separator Token.closeBrace = false) (he : (read (t :: ts)).result = .error e) :
    ∃ blamed later, GoesOn (t :: ts) e blamed later := by
  have hread := read_accounts_of (fun opening => readOpened_accounts opening ts) t
  obtain ⟨blamed, hblamed, hfound, hleft⟩ := hread.blames e he
  exact ⟨blamed, _, goesOn_of_error ht he hblamed hfound hleft⟩

/-- The end of the statement is the same from the blamed token on, unless that token is skipped and
    ends a statement. -/
theorem GoesOn.statementEnd_blamed {body blamed later : List Token} {e : SyntaxError}
    (h : GoesOn body e blamed later)
    (hkept : e.expected.skipsFound = false ∨ ∀ t ∈ e.found, t.endsStatement = false) :
    StatementEnd blamed later := by
  have hend := h.statementEnd
  cases hskips : e.expected.skipsFound with
  | false =>
    rw [SyntaxError.leaves, if_neg (by simp [hskips])] at hend
    exact hend
  | true =>
    rw [SyntaxError.leaves, if_pos hskips] at hend
    cases blamed with
    | nil => exact hend
    | cons t blamed =>
      have ht : t.endsStatement = false := by
        rcases hkept with hskips' | hfound
        · exact absurd (hskips.symm.trans hskips') (by decide)
        · exact hfound t (by rw [h.found]; rfl)
      exact hend.cons ht

/-- A brace begins no statement. -/
theorem not_closeBrace_of_read {t : Token} {ts : List Token} {stmt : Stmt}
    (h : (read (t :: ts)).result = .ok stmt) : t.is .separator Token.closeBrace = false := by
  refine Bool.eq_false_iff.mpr fun ht => ?_
  have hnone : Opening.of? t ts = none := by
    simp [Opening.of?, Token.is, ((Token.is_iff _ _ _).mp ht).1]
  rw [read_of_none hnone] at h
  cases h

/-- A statement that can be read where the block goes on is its next statement. -/
theorem GoesOn.result_of_read {body blamed later : List Token} {e : SyntaxError}
    (h : GoesOn body e blamed later) {stmt : Stmt} (hstmt : (read later).result = .ok stmt) :
    (readAll body).result = (readAll (read later).rest).result.map (stmt :: ·) := by
  cases later with
  | nil => cases hstmt
  | cons t later => exact h.result.trans (readAll_of_ok (not_closeBrace_of_read hstmt) hstmt).1

/-- A closing brace where the block goes on closes it. -/
theorem GoesOn.result_of_closeBrace {body blamed later : List Token} {e : SyntaxError} {b : Token}
    (h : GoesOn body e blamed (b :: later)) (hb : b.is .separator Token.closeBrace = true) :
    (readAll body).result = .ok [] ∧ (readAll body).rest = later := by
  rw [h.result, h.rest, readAll, dif_pos hb]
  exact ⟨rfl, rfl⟩

end Stmt

/-! ## 6. Programs -/

theorem Param.readSome_blames (ts : List Token) : (Param.readSome ts).Blames := by
  rw [Param.readSome]
  refine (blames_expect _ _ ts).andThen fun _ rest hle => ?_
  refine (blames_expectKind _ rest).andThen fun name rest hle' => ?_
  cases rest with
  | nil => exact (blames_expect _ _ []).map _
  | cons t rest =>
    exact .ite (((Param.readSome_blames rest).map _).after t)
      ((blames_expect _ _ (t :: rest)).map _)
termination_by ts.length
decreasing_by simp only [List.length_cons] at *; omega

theorem Param.readList_blames (ts : List Token) : (Param.readList ts).Blames :=
  (blames_expect _ _ ts).andThen fun _ rest _ =>
    .ite ((blames_expect _ _ rest).map _) (Param.readSome_blames rest)

theorem Function.read_accounts (type : TypeName) (ts : List Token) :
    (Function.read type ts).Accounts :=
  (blames_expectKind _ ts).tolerant.andThen fun _ rest _ =>
    (Param.readList_blames rest).tolerant.andThen fun _ rest _ =>
      (Stmt.readBlock_accounts rest).map _

/-- Every fault that did not end the reading is that of a failed statement. -/
theorem Program.startsIn_of_mem_faults (ts : List Token) {fault : Fault}
    (hmem : fault ∈ (Program.read ts).faults) (hsequel : fault.sequel ≠ .aborted) :
    fault.StartsIn ts := by
  fun_induction Program.read ts with
  | case1 => exact absurd hmem List.not_mem_nil
  | case2 t ts e htype =>
    rw [List.mem_singleton.mp hmem] at hsequel
    exact absurd rfl hsequel
  | case3 t ts type htype function e hresult =>
    refine Fault.StartsIn.of_suffix ?_ (List.suffix_cons t ts)
    rcases List.mem_append.mp hmem with hmem | hmem
    · exact (Function.read_accounts type ts).faults fault hmem
    · rw [List.mem_singleton.mp hmem] at hsequel
      exact absurd rfl hsequel
  | case4 t ts type htype function value hresult later ih =>
    refine Fault.StartsIn.of_suffix ?_ (List.suffix_cons t ts)
    rcases List.mem_append.mp hmem with hmem | hmem
    · exact (Function.read_accounts type ts).faults fault hmem
    · exact (ih hmem).of_suffix function.suffix

/-- **After a statement that cannot be read, its block goes on at the end of that statement.** The
    end is looked for from the token on that the error is about; only where that token was skipped
    and itself ends a statement, it is looked for behind it. A statement that can be read there is
    the next one of the block, and a closing brace there closes it. Every fault that did not end the
    reading of a program is of this kind, and tells how many tokens were passed over. -/
theorem Program.goesOn_at_statementEnd (ts : List Token) :
    (∀ t us e, t :: us <:+ ts → t.is .separator Token.closeBrace = false →
      (Stmt.read (t :: us)).result = .error e →
      ∃ blamed later, Stmt.GoesOn (t :: us) e blamed later ∧
        ((e.expected.skipsFound = false ∨ ∀ b ∈ e.found, b.endsStatement = false) →
          StatementEnd blamed later) ∧
        (∀ stmt, (Stmt.read later).result = .ok stmt →
          (Stmt.readAll (t :: us)).result =
            (Stmt.readAll (Stmt.read later).rest).result.map (stmt :: ·)) ∧
        (∀ b rest, later = b :: rest → b.is .separator Token.closeBrace = true →
          (Stmt.readAll (t :: us)).result = .ok [] ∧ (Stmt.readAll (t :: us)).rest = rest)) ∧
    (∀ fault ∈ (Program.read ts).faults, ∀ n, fault.sequel = .resumed n →
      ∃ t us blamed later, t :: us <:+ ts ∧ t.is .separator Token.closeBrace = false ∧
        Stmt.GoesOn (t :: us) fault.error blamed later ∧
        n = (fault.error.leaves blamed).length - later.length) := by
  constructor
  · intro t us e _ ht he
    obtain ⟨blamed, later, h⟩ := Stmt.exists_goesOn ht he
    refine ⟨blamed, later, h, h.statementEnd_blamed, fun stmt => h.result_of_read, ?_⟩
    rintro b rest rfl hb
    exact h.result_of_closeBrace hb
  · intro fault hmem n hsequel
    have hresumed : fault.sequel ≠ .aborted := by
      rw [hsequel]
      exact Sequel.noConfusion
    obtain ⟨body, hbody, ⟨ht, failed, sequel⟩⟩ :=
      Program.startsIn_of_mem_faults ts hmem hresumed
    obtain ⟨blamed, later, h⟩ := Stmt.exists_goesOn ht failed
    refine ⟨_, _, blamed, later, hbody, ht, h, ?_⟩
    rw [hsequel, recoveryLength, h.left, ← h.statementEnd.eq_recover] at sequel
    exact Sequel.resumed.inj sequel

/-- The head `int f()` of a function, and the brace that opens its body. -/
def plainHead : List Token :=
  [⟨.keyword, "int", ⟨1, 1⟩⟩, ⟨.identifier, "f", ⟨1, 5⟩⟩, ⟨.separator, "(", ⟨1, 6⟩⟩,
    ⟨.separator, ")", ⟨1, 7⟩⟩, ⟨.separator, Token.openBrace, ⟨1, 9⟩⟩]

/-- An assignment without a value, and a statement after it. -/
def missingValue : String := "int f() \x7b x = ; y = 1; \x7d"

/-- What comes after the `x` of `missingValue`. -/
def missingValueRest : List Token :=
  [⟨.operator, "=", ⟨1, 13⟩⟩, ⟨.separator, ";", ⟨1, 15⟩⟩, ⟨.identifier, "y", ⟨1, 17⟩⟩,
    ⟨.operator, "=", ⟨1, 19⟩⟩, ⟨.integer, "1", ⟨1, 21⟩⟩, ⟨.separator, ";", ⟨1, 22⟩⟩,
    ⟨.separator, Token.closeBrace, ⟨1, 24⟩⟩]

theorem Program.goesOn_at_statementEnd_missingValue :
    ∃ t e blamed later, t :: missingValueRest <:+ Token.scan missingValue ∧
      t.is .separator Token.closeBrace = false ∧
      (Stmt.read (t :: missingValueRest)).result = .error e ∧ e.expected.skipsFound = false ∧
      Stmt.GoesOn (t :: missingValueRest) e blamed later ∧ StatementEnd blamed later := by
  let x : Token := ⟨.identifier, "x", ⟨1, 11⟩⟩
  have hsuffix : x :: missingValueRest <:+ Token.scan missingValue := ⟨plainHead, by cbv⟩
  have hread : (Stmt.read (x :: missingValueRest)).result =
      .error ⟨.expression, missingValueRest[1]?⟩ := by cbv
  obtain ⟨blamed, later, h, hend, -⟩ :=
    (Program.goesOn_at_statementEnd _).1 _ _ _ hsuffix (by decide) hread
  exact ⟨x, _, blamed, later, hsuffix, by decide, hread, rfl, h, hend (.inl rfl)⟩

/-- A declaration without a name, and a statement after it. -/
def missingName : String := "int f() \x7b int ; x = 1; \x7d"

/-- What comes after the `int` of the declaration in `missingName`. -/
def missingNameRest : List Token :=
  [⟨.separator, ";", ⟨1, 15⟩⟩, ⟨.identifier, "x", ⟨1, 17⟩⟩, ⟨.operator, "=", ⟨1, 19⟩⟩,
    ⟨.integer, "1", ⟨1, 21⟩⟩, ⟨.separator, ";", ⟨1, 22⟩⟩, ⟨.separator, Token.closeBrace, ⟨1, 24⟩⟩]

/-- An assignment without its semicolon, and a function after it. -/
def missingSemicolon : String := "int f() \x7b x = 1 \x7d int g() \x7b \x7d"

/-- **A block does not always go on at the end of the statement as seen from the blamed token**: a
    semicolon that was found in place of a name is skipped, and the statement after it is lost; a
    brace that was found in place of a semicolon is skipped, and the function after it is lost. -/
theorem Program.not_always_statementEnd_blamed :
    (¬ ∀ t us e blamed later, t :: us <:+ Token.scan missingName →
      t.is .separator Token.closeBrace = false → Stmt.GoesOn (t :: us) e blamed later →
      StatementEnd blamed later) ∧
    (Program.read (Token.scan missingName)).program = [⟨.int, ⟨"f", 1⟩, [], []⟩] ∧
    (Program.read (Token.scan missingSemicolon)).program = [⟨.int, ⟨"f", 1⟩, [], []⟩] := by
  refine ⟨fun h => ?_, by cbv, by cbv⟩
  let int : Token := ⟨.keyword, "int", ⟨1, 11⟩⟩
  have hsuffix : int :: missingNameRest <:+ Token.scan missingName := ⟨plainHead, by cbv⟩
  have hread : (Stmt.read (int :: missingNameRest)).result =
      .error ⟨.kind .identifier, missingNameRest.head?⟩ := by cbv
  have hleft : (Stmt.read (int :: missingNameRest)).rest = missingNameRest.tail := by cbv
  have hgoes := Stmt.goesOn_of_error (by decide) hread (List.suffix_cons int _) rfl hleft
  have hend := (h _ _ _ _ _ hsuffix (by decide) hgoes).eq_recover
  exact absurd hend (by decide)

end MiniC
