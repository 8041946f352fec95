import Mathlib
import MiniC.Proofs.Grammar.Completeness
import MiniC.Proofs.Grammar.Resumption
import MiniC.Proofs.Grammar.Salvage

/-!
# Tokens after the end

What happens to a reading of `ts` when more tokens `us` come after `ts`? Either nothing: the result
is the same, and `us` is left after whatever was left before. Or the reading had spent its tokens
and now goes on into `us` (`Reading.Extends`, `Tolerant.Extends`). A block tells which: it ends with
its own closing brace, so a block that could be read is read the same whatever comes after it
(`Tolerant.Settles`). Hence whole functions, once read, stay as they are. Main statement:
`Program.read_append_of_complete`.
-/

namespace MiniC

/-! ## 1. Spent tokens -/

/-- No token is left, or only a name, of which the next token would have said what is done with
    it. -/
inductive Spent : List Token → Prop where
  | nil : Spent []
  | callee {t : Token} (ht : IsCallee t) : Spent [t]

theorem Spent.suffix {ts us : List Token} (h : Spent ts) (hs : us <:+ ts) : Spent us := by
  cases h with
  | nil =>
    rw [List.suffix_nil.mp hs]
    exact .nil
  | callee ht =>
    rcases List.suffix_cons_iff.mp hs with rfl | hs
    · exact .callee ht
    · rw [List.suffix_nil.mp hs]
      exact .nil

/-- Nothing that closes a block is among spent tokens. -/
theorem Spent.not_closeBrace {ts : List Token} (h : Spent ts) :
    ∀ t ∈ ts, t.is .separator Token.closeBrace = false := by
  cases h with
  | nil => exact fun t ht => absurd ht List.not_mem_nil
  | callee ht => exact List.forall_mem_singleton.mpr ht.notClose

/-! ## 2. Readings -/

section Readings

variable {α β : Type} {ts ts' us : List Token}

/-- **The second reading is the first one with `us` after its tokens**: it comes to the same, or the
    first one has spent its tokens and the second goes on into `us`. -/
inductive Reading.Extends (us : List Token) (r : Reading ts α) (r' : Reading ts' α) : Prop where
  | same (result : r'.result = r.result) (rest : r'.rest = r.rest ++ us)
  | further (spent : Spent r.rest) (rest : r'.rest <:+ us)

namespace Reading

theorem rest_andThen_suffix (r : Reading ts α)
    (next : α → (rest : List Token) → rest.length ≤ ts.length → Reading rest β) :
    (r.andThen next).rest <:+ r.rest := by
  cases h : r.result with
  | error e => exact ⟨[], congrArg Reading.rest (andThen_of_error h next)⟩
  | ok value =>
    rw [andThen_of_ok h]
    exact (next value r.rest r.suffix.length_le).suffix

/-- Whatever is read from no tokens has spent them. -/
theorem extends_nil (r : Reading [] α) (r' : Reading us α) : Extends us r r' := by
  refine .further ?_ r'.suffix
  rw [List.suffix_nil.mp r.suffix]
  exact .nil

theorem extends_done (value : α) :
    Extends us (done value : Reading ts α) (done value : Reading (ts ++ us) α) :=
  .same rfl rfl

theorem extends_fail (expected : Expected) (t : Token) :
    Extends us (fail expected : Reading (t :: ts) α)
      (fail expected : Reading (t :: (ts ++ us)) α) :=
  .same rfl rfl

theorem Extends.after {r : Reading ts α} {r' : Reading ts' α} (h : Extends us r r') (t : Token) :
    Extends us (r.after t) (r'.after t) := by
  cases h with
  | same result rest => exact .same result rest
  | further spent rest => exact .further spent rest

theorem Extends.map {r : Reading ts α} {r' : Reading ts' α} (h : Extends us r r') (f : α → β) :
    Extends us (r.map f) (r'.map f) := by
  cases h with
  | same result rest => exact .same (congrArg (Except.map f) result) rest
  | further spent rest => exact .further spent rest

theorem Extends.andThen {r : Reading ts α} {r' : Reading ts' α} (h : Extends us r r')
    {next : α → (rest : List Token) → rest.length ≤ ts.length → Reading rest β}
    {next' : α → (rest : List Token) → rest.length ≤ ts'.length → Reading rest β}
    (hnext : ∀ value rest hle hle',
      Extends us (next value rest hle) (next' value (rest ++ us) hle')) :
    Extends us (r.andThen next) (r'.andThen next') := by
  cases h with
  | further spent rest =>
    exact .further (spent.suffix (rest_andThen_suffix r next))
      ((rest_andThen_suffix r' next').trans rest)
  | same result rest =>
    obtain ⟨result', rest', suffix'⟩ := r'
    obtain ⟨rfl, rfl⟩ : result' = r.result ∧ rest' = r.rest ++ us := ⟨result, rest⟩
    cases hresult : r.result with
    | error e =>
      simp only [Reading.andThen, hresult]
      exact .same rfl rfl
    | ok value =>
      simp only [Reading.andThen, hresult]
      cases hnext value r.rest r.suffix.length_le suffix'.length_le with
      | same result rest => exact .same result rest
      | further spent rest => exact .further spent rest

/-- Two readings that choose alike. -/
theorem Extends.ite {p : Prop} [Decidable p] {r₁ r₂ : Reading ts α} {r₁' r₂' : Reading ts' α}
    (h₁ : Extends us r₁ r₁') (h₂ : Extends us r₂ r₂') :
    Extends us (if p then r₁ else r₂) (if p then r₁' else r₂') := by
  by_cases h : p
  · rw [if_pos h, if_pos h]
    exact h₁
  · rw [if_neg h, if_neg h]
    exact h₂

end Reading

theorem extends_expect (kind : Token.Kind) (text : String) (us ts : List Token) :
    Reading.Extends us (expect kind text ts) (expect kind text (ts ++ us)) := by
  cases ts with
  | nil => exact Reading.extends_nil _ _
  | cons t ts =>
    rw [List.cons_append, expect, expect]
    exact .ite ((Reading.extends_done t).after t) (.same rfl rfl)

theorem extends_expectKind (kind : Token.Kind) (us ts : List Token) :
    Reading.Extends us (expectKind kind ts) (expectKind kind (ts ++ us)) := by
  cases ts with
  | nil => exact Reading.extends_nil _ _
  | cons t ts =>
    rw [List.cons_append, expectKind, expectKind]
    exact .ite ((Reading.extends_done t).after t) (.same rfl rfl)

end Readings

/-! ## 3. Expressions -/

namespace Expr

mutual

theorem readLevel_extends (us : List Token) (level : Nat) (ts : List Token) :
    Reading.Extends us (readLevel level ts) (readLevel level (ts ++ us)) := by
  match level with
  | 0 =>
    rw [readLevel, readLevel]
    exact readUnary_extends us ts
  | level + 1 =>
    rw [readLevel, readLevel]
    exact (readLevel_extends us level ts).andThen fun left rest hle _ =>
      readChain_extends us level left rest
termination_by (ts.length, level + 2)
decreasing_by all_goals omega

theorem readChain_extends (us : List Token) (level : Nat) (left : Expr) (ts : List Token) :
    Reading.Extends us (readChain level left ts) (readChain level left (ts ++ us)) := by
  cases ts with
  | nil => exact Reading.extends_nil _ _
  | cons t ts =>
    rw [List.cons_append, readChain, readChain]
    cases t.binaryOp? with
    | none => exact Reading.extends_done left
    | some op =>
      refine .ite (Reading.Extends.after ?_ t) (Reading.extends_done left)
      exact (readLevel_extends us level ts).andThen fun right rest hle _ =>
        readChain_extends us level (.binary op left right) rest
termination_by (ts.length, 0)
decreasing_by all_goals rw [List.length_cons]; omega

theorem readUnary_extends (us ts : List Token) :
    Reading.Extends us (readUnary ts) (readUnary (ts ++ us)) := by
  cases ts with
  | nil => exact Reading.extends_nil _ _
  | cons t ts =>
    rw [List.cons_append, readUnary, readUnary]
    cases t.unaryOp? with
    | none => exact readPrimary_extends us t ts
    | some op => exact ((readUnary_extends us ts).map _).after t
termination_by (ts.length, 1)
decreasing_by all_goals simp only [List.length_cons]; omega

/-- Whether a name is called is only known when a token stands after it. -/
theorem readPrimary_extends (us : List Token) (t : Token) (ts : List Token) :
    Reading.Extends us (readPrimary t ts) (readPrimary t (ts ++ us)) := by
  rw [readPrimary, readPrimary]
  cases hkind : t.kind with
  | float | integer | string => exact (Reading.extends_done _).after t
  | operator | mismatch => exact Reading.extends_fail _ t
  | identifier =>
    cases ts with
    | nil =>
      refine .further .nil ?_
      simp only [List.nil_append]
      split
      · exact (readArguments us).suffix
      · exact List.suffix_refl us
    | cons u ts =>
      exact .ite (((readArguments_extends us (u :: ts)).map _).after t)
        ((Reading.extends_done _).after t)
  | keyword =>
    cases ts with
    | nil =>
      by_cases hcall : (t.text = "printf" && startsWith .separator "(" us) = true
      · have htext : t.text = "printf" := of_decide_eq_true (Bool.and_eq_true_iff.mp hcall).1
        simp only [List.nil_append, if_pos hcall]
        refine .further ?_ (readArguments us).suffix
        rw [if_neg (by simp [startsWith])]
        exact .callee (.inr ((Token.is_iff t _ _).mpr ⟨hkind, htext⟩))
      · simp only [List.nil_append, if_neg hcall]
        rw [if_neg (by simp [startsWith])]
        exact Reading.extends_fail _ t
    | cons u ts =>
      exact .ite (((readArguments_extends us (u :: ts)).map _).after t) (Reading.extends_fail _ t)
  | separator =>
    refine .ite (Reading.Extends.after ?_ t) (Reading.extends_fail _ t)
    exact (readLevel_extends us BinaryOp.levels ts).andThen fun e rest hle _ =>
      (extends_expect _ _ us rest).map _
termination_by (ts.length + 1, 0)
decreasing_by all_goals simp only [List.length_cons] at *; omega

theorem readArguments_extends (us ts : List Token) :
    Reading.Extends us (readArguments ts) (readArguments (ts ++ us)) := by
  rw [readArguments, readArguments]
  refine (extends_expect _ _ us ts).andThen fun _ rest hle _ => ?_
  cases rest with
  | nil => exact Reading.extends_nil _ _
  | cons t rest =>
    exact .ite ((extends_expect _ _ us (t :: rest)).map _)
      (readFirstArgument_extends us (t :: rest))
termination_by (ts.length, BinaryOp.levels + 4)
decreasing_by all_goals omega

theorem readFirstArgument_extends (us ts : List Token) :
    Reading.Extends us (readFirstArgument ts) (readFirstArgument (ts ++ us)) := by
  rw [readFirstArgument, readFirstArgument]
  exact (readLevel_extends us BinaryOp.levels ts).andThen fun arg rest hle _ =>
    (readMoreArguments_extends us rest).map _
termination_by (ts.length, BinaryOp.levels + 3)
decreasing_by all_goals omega

theorem readMoreArguments_extends (us ts : List Token) :
    Reading.Extends us (readMoreArguments ts) (readMoreArguments (ts ++ us)) := by
  cases ts with
  | nil => exact Reading.extends_nil _ _
  | cons t ts =>
    rw [List.cons_append, readMoreArguments, readMoreArguments]
    exact .ite ((readFirstArgument_extends us ts).after t)
      ((extends_expect _ _ us (t :: ts)).map _)
termination_by (ts.length, 0)
decreasing_by all_goals rw [List.length_cons]; omega

end

theorem read_extends (us ts : List Token) : Reading.Extends us (read ts) (read (ts ++ us)) :=
  readLevel_extends us BinaryOp.levels ts

/-! ## 4. Clauses -/

theorem readInit_extends (us ts : List Token) :
    Reading.Extends us (readInit ts) (readInit (ts ++ us)) := by
  cases ts with
  | nil => exact Reading.extends_nil _ _
  | cons t ts =>
    rw [List.cons_append, readInit, readInit]
    exact .ite (((read_extends us ts).map _).after t) (Reading.extends_done _)

theorem readReturned_extends (us ts : List Token) :
    Reading.Extends us (readReturned ts) (readReturned (ts ++ us)) := by
  cases ts with
  | nil => exact Reading.extends_nil _ _
  | cons t ts =>
    refine .ite ((extends_expect _ _ us (t :: ts)).map _) ?_
    exact (read_extends us (t :: ts)).andThen fun value rest _ _ =>
      (extends_expect _ _ us rest).map _

theorem readCondition_extends (us ts : List Token) :
    Reading.Extends us (readCondition ts) (readCondition (ts ++ us)) :=
  (extends_expect _ _ us ts).andThen fun _ rest _ _ =>
    (read_extends us rest).andThen fun _ rest _ _ => (extends_expect _ _ us rest).map _

end Expr

theorem Declaration.read_extends (us ts : List Token) :
    Reading.Extends us (Declaration.read ts) (Declaration.read (ts ++ us)) :=
  (extends_expectKind _ us ts).andThen fun _ rest _ _ =>
    (Expr.readInit_extends us rest).andThen fun _ rest _ _ => (extends_expect _ _ us rest).map _

theorem Assignment.readTo_extends (target : Ident) (us ts : List Token) :
    Reading.Extends us (Assignment.readTo target ts) (Assignment.readTo target (ts ++ us)) :=
  (extends_expect _ _ us ts).andThen fun _ rest _ _ => (Expr.read_extends us rest).map _

theorem Assignment.read_extends (us ts : List Token) :
    Reading.Extends us (Assignment.read ts) (Assignment.read (ts ++ us)) :=
  (extends_expectKind _ us ts).andThen fun name rest _ _ =>
    Assignment.readTo_extends name.ident us rest

theorem LoopHead.read_extends (us ts : List Token) :
    Reading.Extends us (LoopHead.read ts) (LoopHead.read (ts ++ us)) := by
  refine (extends_expect _ _ us ts).andThen fun _ rest _ _ => ?_
  refine (extends_expect _ _ us rest).andThen fun _ rest _ _ => ?_
  refine (Declaration.read_extends us rest).andThen fun init rest _ _ => ?_
  refine (Expr.read_extends us rest).andThen fun cond rest _ _ => ?_
  refine (extends_expect _ _ us rest).andThen fun _ rest _ _ => ?_
  refine (Assignment.read_extends us rest).andThen fun step rest _ _ => ?_
  exact (extends_expect _ _ us rest).map _

/-! ## 5. Tolerant readings -/

section Tolerant

variable {α β : Type} {ts ts' us vs : List Token}

/-- **The second reading is the first one with `us` after its tokens**, its faults included, or the
    first one has spent its tokens. -/
inductive Tolerant.Extends (us : List Token) (r : Tolerant ts α) (r' : Tolerant ts' α) : Prop where
  | same (result : r'.result = r.result) (rest : r'.rest = r.rest ++ us)
      (faults : r'.faults = r.faults)
  | further (spent : Spent r.rest) (rest : r'.rest <:+ us)

theorem Reading.Extends.tolerant {r : Reading ts α} {r' : Reading ts' α}
    (h : Reading.Extends us r r') : Tolerant.Extends us r.tolerant r'.tolerant := by
  cases h with
  | same result rest => exact .same result rest rfl
  | further spent rest => exact .further spent rest

namespace Tolerant

theorem rest_andThen_suffix (r : Tolerant ts α)
    (next : α → (rest : List Token) → rest.length ≤ ts.length → Tolerant rest β) :
    (r.andThen next).rest <:+ r.rest := by
  cases h : r.result with
  | error e => exact ⟨[], congrArg Reading.rest (andThen_of_error h next).1⟩
  | ok value =>
    rw [(andThen_of_ok h next).1]
    exact (next value r.rest r.suffix.length_le).suffix

theorem extends_nil (r : Tolerant [] α) (r' : Tolerant us α) : Extends us r r' := by
  refine .further ?_ r'.suffix
  rw [List.suffix_nil.mp r.suffix]
  exact .nil

theorem Extends.after {r : Tolerant ts α} {r' : Tolerant ts' α} (h : Extends us r r') (t : Token) :
    Extends us (r.after t) (r'.after t) := by
  cases h with
  | same result rest faults => exact .same result rest faults
  | further spent rest => exact .further spent rest

theorem Extends.map {r : Tolerant ts α} {r' : Tolerant ts' α} (h : Extends us r r') (f : α → β) :
    Extends us (r.map f) (r'.map f) := by
  cases h with
  | same result rest faults => exact .same (congrArg (Except.map f) result) rest faults
  | further spent rest => exact .further spent rest

theorem Extends.andThen {r : Tolerant ts α} {r' : Tolerant ts' α} (h : Extends us r r')
    {next : α → (rest : List Token) → rest.length ≤ ts.length → Tolerant rest β}
    {next' : α → (rest : List Token) → rest.length ≤ ts'.length → Tolerant rest β}
    (hnext : ∀ value rest hle hle',
      Extends us (next value rest hle) (next' value (rest ++ us) hle')) :
    Extends us (r.andThen next) (r'.andThen next') := by
  cases h with
  | further spent rest =>
    exact .further (spent.suffix (rest_andThen_suffix r next))
      ((rest_andThen_suffix r' next').trans rest)
  | same result rest faults =>
    obtain ⟨⟨result', rest', suffix'⟩, faults'⟩ := r'
    obtain ⟨rfl, rfl, rfl⟩ : result' = r.result ∧ rest' = r.rest ++ us ∧ faults' = r.faults :=
      ⟨result, rest, faults⟩
    cases hresult : r.result with
    | error e =>
      simp only [Tolerant.andThen, follow, hresult]
      exact .same rfl rfl rfl
    | ok value =>
      simp only [Tolerant.andThen, follow, hresult]
      cases hnext value r.rest r.suffix.length_le suffix'.length_le with
      | same result rest faults => exact .same result rest (congrArg (r.faults ++ ·) faults)
      | further spent rest => exact .further spent rest

/-- **The second reading is the first one with `us` after its tokens, or the first one fails for
    want of tokens**, and the second goes on into `us`, where it takes tokens if it succeeds. -/
inductive Settles (us : List Token) (r : Tolerant ts α) (r' : Tolerant ts' α) : Prop where
  | same (result : r'.result = r.result) (rest : r'.rest = r.rest ++ us)
      (faults : r'.faults = r.faults)
  | further (spent : Spent r.rest) (failed : ∃ e, r.result = .error e) (rest : r'.rest <:+ us)
      (takes : ∀ value, r'.result = .ok value → r'.rest.length < us.length)

theorem Settles.extends {r : Tolerant ts α} {r' : Tolerant ts' α} (h : Settles us r r') :
    Extends us r r' := by
  cases h with
  | same result rest faults => exact .same result rest faults
  | further spent _ rest _ => exact .further spent rest

theorem Settles.map {r : Tolerant ts α} {r' : Tolerant ts' α} (h : Settles us r r') (f : α → β) :
    Settles us (r.map f) (r'.map f) := by
  cases h with
  | same result rest faults => exact .same (congrArg (Except.map f) result) rest faults
  | further spent failed rest takes =>
    obtain ⟨e, he⟩ := failed
    refine .further spent ⟨e, congrArg (Except.map f) he⟩ rest fun value hvalue => ?_
    obtain ⟨v, ⟨hv, -⟩, -⟩ := yields_map_iff.mp ⟨hvalue, rfl⟩
    exact takes v hv

theorem Settles.noting {r : Tolerant ts α} {r' : Tolerant ts' α} (h : Settles us r r')
    (fault : Fault) : Settles us (r.noting fault) (r'.noting fault) := by
  cases h with
  | same result rest faults => exact .same result rest (congrArg (fault :: ·) faults)
  | further spent failed rest takes => exact .further spent failed rest takes

/-- Two readings that come to what two others come to, after the same faults. -/
theorem Settles.of_eq {vs vs' : List Token} {q : Tolerant vs α} {q' : Tolerant vs' α}
    (h : Settles us q q') {r : Tolerant ts α} {r' : Tolerant ts' α} {earlier : List Fault}
    (hr : r.result = q.result ∧ r.rest = q.rest ∧ r.faults = earlier ++ q.faults)
    (hr' : r'.result = q'.result ∧ r'.rest = q'.rest ∧ r'.faults = earlier ++ q'.faults) :
    Settles us r r' := by
  obtain ⟨hresult, hrest, hfaults⟩ := hr
  obtain ⟨hresult', hrest', hfaults'⟩ := hr'
  cases h with
  | same result rest faults =>
    refine .same ?_ ?_ ?_
    · rw [hresult, hresult', result]
    · rw [hrest, hrest', rest]
    · rw [hfaults, hfaults', faults]
  | further spent failed rest takes =>
    rw [← hrest] at spent
    rw [← hresult] at failed
    rw [← hrest'] at rest takes
    rw [← hresult'] at takes
    exact .further spent failed rest takes

/-- A reading that succeeds only by taking a closing brace. -/
def Closes (r : Tolerant ts α) : Prop :=
  ∀ value, r.result = .ok value →
    r.rest.length < ts.length ∧ ∃ c ∈ ts, c.is .separator Token.closeBrace = true

theorem Closes.map {r : Tolerant ts α} (h : r.Closes) (f : α → β) : (r.map f).Closes := by
  intro value hvalue
  obtain ⟨v, ⟨hv, -⟩, -⟩ := yields_map_iff.mp ⟨hvalue, rfl⟩
  exact h v hv

theorem closes_andThen (r : Tolerant ts α)
    {next : α → (rest : List Token) → rest.length ≤ ts.length → Tolerant rest β}
    (hnext : ∀ value rest hle, (next value rest hle).Closes) : (r.andThen next).Closes := by
  intro value hvalue
  obtain ⟨v, mid, hle, ⟨-, hmid⟩, hv, hrest⟩ := yields_andThen_iff.mp ⟨hvalue, rfl⟩
  obtain ⟨hlt, c, hmem, hc⟩ := hnext v mid hle value hv
  rw [hrest] at hlt
  refine ⟨Nat.lt_of_lt_of_le hlt hle, c, ?_, hc⟩
  exact (hmid ▸ r.suffix).subset hmem

/-- Nothing closes from spent tokens. -/
theorem Closes.fails_of_spent {r : Tolerant ts α} (h : r.Closes) (hts : Spent ts) :
    ∃ e, r.result = .error e := by
  cases hresult : r.result with
  | error e => exact ⟨e, rfl⟩
  | ok value =>
    obtain ⟨-, c, hmem, hc⟩ := h value hresult
    exact absurd (hts.not_closeBrace c hmem) (by simp [hc])

/-- **A reading that closes what the first one begins settles it.** -/
theorem Extends.andThen_settles {r : Tolerant ts α} {r' : Tolerant ts' α} (h : Extends us r r')
    {next : α → (rest : List Token) → rest.length ≤ ts.length → Tolerant rest β}
    {next' : α → (rest : List Token) → rest.length ≤ ts'.length → Tolerant rest β}
    (hcloses : ∀ value rest hle, (next value rest hle).Closes)
    (hcloses' : ∀ value rest hle, (next' value rest hle).Closes)
    (hnext : ∀ value rest hle hle',
      Settles us (next value rest hle) (next' value (rest ++ us) hle')) :
    Settles us (r.andThen next) (r'.andThen next') := by
  cases h with
  | further spent rest =>
    have hfailed : ∃ e, (r.andThen next).result = .error e := by
      cases hresult : r.result with
      | error e => exact ⟨e, by rw [(andThen_of_error hresult next).1]⟩
      | ok value =>
        rw [(andThen_of_ok hresult next).1]
        exact (hcloses value r.rest r.suffix.length_le).fails_of_spent spent
    refine .further (spent.suffix (rest_andThen_suffix r next)) hfailed
      ((rest_andThen_suffix r' next').trans rest) fun value hvalue => ?_
    obtain ⟨v, mid, hle, ⟨-, hmid⟩, hv, hrest⟩ := yields_andThen_iff.mp ⟨hvalue, rfl⟩
    have hlt := (hcloses' v mid hle value hv).1
    rw [hrest] at hlt
    exact Nat.lt_of_lt_of_le hlt (hmid ▸ rest).length_le
  | same result rest faults =>
    obtain ⟨⟨result', rest', suffix'⟩, faults'⟩ := r'
    obtain ⟨rfl, rfl, rfl⟩ : result' = r.result ∧ rest' = r.rest ++ us ∧ faults' = r.faults :=
      ⟨result, rest, faults⟩
    cases hresult : r.result with
    | error e =>
      simp only [Tolerant.andThen, follow, hresult]
      exact .same rfl rfl rfl
    | ok value =>
      simp only [Tolerant.andThen, follow, hresult]
      cases hnext value r.rest r.suffix.length_le suffix'.length_le with
      | same result rest faults => exact .same result rest (congrArg (r.faults ++ ·) faults)
      | further spent failed rest takes => exact .further spent failed rest takes

end Tolerant

end Tolerant

/-! ## 6. Statements -/

/-- Recovery stops before the tokens that come after, or it goes on into them. -/
theorem recover_append (ts us : List Token) :
    recover (ts ++ us) = recover ts ++ us ∨ recover ts = [] ∧ recover (ts ++ us) = recover us := by
  induction ts with
  | nil => exact .inr ⟨rfl, rfl⟩
  | cons t ts ih =>
    rw [List.cons_append, recover, recover]
    split
    · exact .inl rfl
    · split
      · exact .inl rfl
      · exact ih

theorem recoveryLength_append {ts us : List Token} (h : recover (ts ++ us) = recover ts ++ us) :
    recoveryLength (ts ++ us) = recoveryLength ts := by
  rw [recoveryLength, recoveryLength, h, List.length_append, List.length_append]
  omega

/-- What a token announces is known once a token stands after it. -/
theorem Opening.of?_append (t : Token) (ts us : List Token) :
    Opening.of? t (ts ++ us) = Opening.of? t ts ∨
      ts = [] ∧ IsCallee t ∧ Opening.of? t [] = none := by
  cases ts with
  | cons u ts => exact .inl rfl
  | nil =>
    by_cases hkind : t.kind = .identifier
    · refine .inr ⟨rfl, .inl hkind, ?_⟩
      simp [Opening.of?_identifier hkind, startsWith]
    · left
      simp [Opening.of?, hkind]

namespace Stmt

open Tolerant

theorem readAll_closes (ts : List Token) : (readAll ts).Closes := by
  intro stmts h
  obtain ⟨us, c, hsub, -, hc⟩ := readAll_keeps ts ⟨h, rfl⟩
  refine ⟨?_, c, hsub.subset (List.mem_append_right _ List.mem_cons_self), hc⟩
  have hlength := hsub.length_le
  rw [List.length_append, List.length_cons] at hlength
  omega

theorem readBlock_closes (ts : List Token) : (readBlock ts).Closes := by
  rw [readBlock]
  exact closes_andThen _ fun _ rest _ => readAll_closes rest

variable {t : Token} {ts us : List Token}

theorem read_extends_of
    (h : ∀ opening, Extends us (readOpened opening ts) (readOpened opening (ts ++ us)))
    (t : Token) : Extends us (read (t :: ts)) (read (t :: (ts ++ us))) := by
  rcases Opening.of?_append t ts us with heq | ⟨rfl, ht, hnone⟩
  · cases hopening : Opening.of? t ts with
    | none =>
      rw [read_of_none hopening, read_of_none (heq.trans hopening)]
      exact .same rfl rfl rfl
    | some opening =>
      rw [read_of_some hopening, read_of_some (heq.trans hopening)]
      exact (h opening).after t
  · rw [read_of_none hnone]
    cases hopening : Opening.of? t ([] ++ us) with
    | none =>
      rw [read_of_none hopening]
      exact .same rfl rfl rfl
    | some opening =>
      rw [read_of_some hopening]
      exact .further (.callee ht) (readOpened opening us).suffix

/-- The reading comes to what the statements of a block at `later` come to, perhaps after others. -/
def EndsAs (r : Tolerant ts Block) (later : List Token) : Prop :=
  ∃ f, r.result = (readAll later).result.map f ∧ r.rest = (readAll later).rest

theorem endsAs_of_ok (ht : t.is .separator Token.closeBrace = false) {stmt : Stmt}
    (h : (read (t :: ts)).result = .ok stmt) :
    EndsAs (readAll (t :: ts)) (read (t :: ts)).rest := by
  obtain ⟨hall, hrest, -⟩ := readAll_of_ok ht h
  exact ⟨_, hall, hrest⟩

theorem endsAs_of_error (ht : t.is .separator Token.closeBrace = false) {e : SyntaxError}
    (h : (read (t :: ts)).result = .error e) :
    EndsAs (readAll (t :: ts)) (recover (read (t :: ts)).rest) := by
  obtain ⟨hall, hrest, -⟩ := readAll_of_error ht h
  exact ⟨id, by rw [hall, Except.map_id]; rfl, hrest⟩

/-- The statements of a block go on behind the first one, whether that was read or not. -/
theorem exists_endsAs (ht : t.is .separator Token.closeBrace = false) (ts : List Token) :
    ∃ later, later <:+ (read (t :: ts)).rest ∧ EndsAs (readAll (t :: ts)) later := by
  cases hresult : (read (t :: ts)).result with
  | ok stmt => exact ⟨_, List.suffix_refl _, endsAs_of_ok ht hresult⟩
  | error e => exact ⟨_, recover_suffix _, endsAs_of_error ht hresult⟩

/-- Once the tokens are spent, a block fails for want of them. -/
theorem EndsAs.settles {ts' later later' : List Token} {r : Tolerant ts Block}
    {r' : Tolerant ts' Block} (h : EndsAs r later) (h' : EndsAs r' later') (hspent : Spent later)
    (hlater : later' <:+ us) : Settles us r r' := by
  obtain ⟨f, hresult, hrest⟩ := h
  obtain ⟨f', hresult', hrest'⟩ := h'
  refine .further ?_ ?_ ?_ fun value hvalue => ?_
  · rw [hrest]
    exact hspent.suffix (readAll later).suffix
  · obtain ⟨e, he⟩ := (readAll_closes later).fails_of_spent hspent
    exact ⟨e, by rw [hresult, he]; rfl⟩
  · rw [hrest']
    exact (readAll later').suffix.trans hlater
  · rw [hrest']
    cases hv : (readAll later').result with
    | error e =>
      rw [hresult', hv] at hvalue
      cases hvalue
    | ok v => exact Nat.lt_of_lt_of_le (readAll_closes later' v hv).1 hlater.length_le

-- The induction follows the recursion of the readers. A statement may come out otherwise when more
-- tokens stand after it, an `if` without its `else` for one (`Extends`). A block may not: where its
-- first statement has spent the tokens, what is left holds no brace to close it (`Settles`).
mutual

theorem readBlock_settles (us ts : List Token) :
    Settles us (readBlock ts) (readBlock (ts ++ us)) := by
  rw [readBlock, readBlock]
  exact (extends_expect _ _ us ts).tolerant.andThen_settles (fun _ rest _ => readAll_closes rest)
    (fun _ rest _ => readAll_closes rest) fun _ rest hle _ => readAll_settles us rest
termination_by (ts.length, 1)
decreasing_by all_goals omega

/-- **A block ends with its own brace, whatever comes after it.** -/
theorem readAll_settles (us ts : List Token) :
    Settles us (readAll ts) (readAll (ts ++ us)) := by
  cases ts with
  | nil =>
    rw [List.nil_append]
    refine .further ?_ ⟨_, by rw [readAll]; rfl⟩ (readAll us).suffix
      fun value hvalue => (readAll_closes us value hvalue).1
    rw [List.suffix_nil.mp (readAll []).suffix]
    exact .nil
  | cons t ts =>
    rw [List.cons_append]
    cases ht : t.is .separator Token.closeBrace with
    | true =>
      rw [readAll, readAll, dif_pos ht, dif_pos ht]
      exact .same rfl rfl rfl
    | false =>
      cases read_extends_of (fun opening => readOpened_extends us opening ts) t with
      | further spent rest =>
        obtain ⟨later, hlater, hends⟩ := exists_endsAs ht ts
        obtain ⟨later', hlater', hends'⟩ := exists_endsAs ht (ts ++ us)
        exact hends.settles hends' (spent.suffix hlater) (hlater'.trans rest)
      | same result rest faults =>
        cases hresult : (read (t :: ts)).result with
        | ok stmt =>
          have hle := (rest_read_suffix hresult).length_le
          have hall := readAll_of_ok ht hresult
          have hall' := readAll_of_ok ht (result.trans hresult)
          rw [rest, faults] at hall'
          exact ((readAll_settles us (read (t :: ts)).rest).map (stmt :: ·)).of_eq hall hall'
        | error e =>
          have hsuffix : recover (read (t :: ts)).rest <:+ ts := recover_rest_read_suffix ht
          have hle := hsuffix.length_le
          have hall := readAll_of_error ht hresult
          have hall' := readAll_of_error ht (result.trans hresult)
          rw [rest, faults] at hall'
          rcases recover_append (read (t :: ts)).rest us with hrecover | ⟨hnil, hrecover⟩
          · rw [recoveryLength_append hrecover, hrecover] at hall'
            exact ((readAll_settles us (recover (read (t :: ts)).rest)).noting _).of_eq hall hall'
          · -- recovery runs through the tokens and goes on into `us`
            have hends := endsAs_of_error ht hresult
            have hends' := endsAs_of_error ht (result.trans hresult)
            rw [hnil] at hends
            rw [rest, hrecover] at hends'
            exact hends.settles hends' .nil (recover_suffix us)
termination_by (ts.length, 0)
decreasing_by all_goals simp only [List.length_cons]; omega

theorem readOpened_extends (us : List Token) (opening : Opening) (ts : List Token) :
    Extends us (readOpened opening ts) (readOpened opening (ts ++ us)) := by
  cases opening with
  | declaration =>
    rw [readOpened, readOpened]
    exact ((Declaration.read_extends us ts).map _).tolerant
  | ret line =>
    rw [readOpened, readOpened]
    exact ((Expr.readReturned_extends us ts).map _).tolerant
  | call callee =>
    rw [readOpened, readOpened]
    exact ((Expr.readArguments_extends us ts).andThen fun _ rest _ _ =>
      (extends_expect _ _ us rest).map _).tolerant
  | assignment target =>
    rw [readOpened, readOpened]
    exact ((Assignment.readTo_extends target us ts).andThen fun _ rest _ _ =>
      (extends_expect _ _ us rest).map _).tolerant
  | branch =>
    rw [readOpened, readOpened]
    exact (Expr.readCondition_extends us ts).tolerant.andThen fun _ rest hle _ =>
      (readBlock_settles us rest).extends.andThen fun _ rest hle _ =>
        (readElse_extends us rest).map _
  | loop =>
    rw [readOpened, readOpened]
    exact (LoopHead.read_extends us ts).tolerant.andThen fun _ rest hle _ =>
      (readBlock_settles us rest).extends.map _
termination_by (ts.length, 3)
decreasing_by all_goals omega

/-- Whether there is an `else` is only known when a token stands after the block. -/
theorem readElse_extends (us ts : List Token) :
    Extends us (readElse ts) (readElse (ts ++ us)) := by
  cases ts with
  | nil => exact extends_nil _ _
  | cons t ts =>
    rw [List.cons_append, readElse, readElse]
    split
    · exact ((readBlock_settles us ts).extends.map some).after t
    · exact .same rfl rfl rfl
termination_by (ts.length, 2)
decreasing_by all_goals rw [List.length_cons]; omega

end

end Stmt

/-! ## 7. Functions -/

theorem Param.readSome_extends (us ts : List Token) :
    Reading.Extends us (Param.readSome ts) (Param.readSome (ts ++ us)) := by
  rw [Param.readSome, Param.readSome]
  refine (extends_expect _ _ us ts).andThen fun _ rest hle _ => ?_
  refine (extends_expectKind _ us rest).andThen fun name rest hle' _ => ?_
  cases rest with
  | nil => exact Reading.extends_nil _ _
  | cons t rest =>
    exact .ite (((Param.readSome_extends us rest).map _).after t)
      ((extends_expect _ _ us (t :: rest)).map _)
termination_by ts.length
decreasing_by simp only [List.length_cons] at *; omega

theorem Param.readList_extends (us ts : List Token) :
    Reading.Extends us (Param.readList ts) (Param.readList (ts ++ us)) := by
  refine (extends_expect _ _ us ts).andThen fun _ rest _ _ => ?_
  cases rest with
  | nil => exact Reading.extends_nil _ _
  | cons t rest =>
    exact .ite ((extends_expect _ _ us (t :: rest)).map _) (Param.readSome_extends us (t :: rest))

/-- **A function that could be read is read the same, whatever comes after it.** -/
theorem Function.read_settles (us : List Token) (type : TypeName) (ts : List Token) :
    Tolerant.Settles us (Function.read type ts) (Function.read type (ts ++ us)) := by
  refine (extends_expectKind _ us ts).tolerant.andThen_settles
    (fun _ rest _ => Tolerant.closes_andThen _ fun _ rest _ => (Stmt.readBlock_closes rest).map _)
    (fun _ rest _ => Tolerant.closes_andThen _ fun _ rest _ => (Stmt.readBlock_closes rest).map _)
    fun _ rest _ _ => ?_
  exact (Param.readList_extends us rest).tolerant.andThen_settles
    (fun _ rest _ => (Stmt.readBlock_closes rest).map _)
    (fun _ rest _ => (Stmt.readBlock_closes rest).map _)
    fun _ rest _ _ => (Stmt.readBlock_settles us rest).map _

/-- What a function does not take can be left out. -/
theorem Function.read_of_append {type : TypeName} {ts us rest : List Token} {f : Function}
    (hresult : (Function.read type (ts ++ us)).result = .ok f)
    (hrest : (Function.read type (ts ++ us)).rest = rest ++ us) :
    (Function.read type ts).result = .ok f ∧ (Function.read type ts).rest = rest := by
  cases Function.read_settles us type ts with
  | same result rest faults =>
    exact ⟨result.symm.trans hresult, List.append_cancel_right (rest.symm.trans hrest)⟩
  | further _ _ _ takes =>
    have hlt := takes f hresult
    rw [hrest, List.length_append] at hlt
    omega

/-- A fault inside a function does not end the reading. -/
theorem Function.resumed_of_mem_faults {type : TypeName} {ts : List Token} :
    ∀ fault ∈ (Function.read type ts).faults, fault.sequel ≠ .aborted := by
  intro fault hmem haborted
  obtain ⟨body, -, ⟨-, -, hresumed⟩⟩ := (Function.read_accounts type ts).faults fault hmem
  cases haborted.symm.trans hresumed

/-! ## 8. Programs -/

/-- The reading came to the end of its tokens, and every function could be read. Statements may have
    failed inside them. -/
structure Parse.Complete (p : Parse) : Prop where
  rest_eq : p.rest = []
  resumed : ∀ fault ∈ p.faults, fault.sequel ≠ .aborted

namespace Program

variable {t : Token} {ts : List Token}

theorem read_of_type_error {e : SyntaxError} (h : TypeName.ofToken t = .error e) :
    read (t :: ts) = ⟨[], [⟨e, .aborted⟩], ts⟩ := by
  simp only [read, h]

theorem read_of_error {type : TypeName} (htype : TypeName.ofToken t = .ok type) {e : SyntaxError}
    (h : (Function.read type ts).result = .error e) :
    read (t :: ts) = ⟨[], (Function.read type ts).faults ++ [⟨e, .aborted⟩],
      (Function.read type ts).rest⟩ := by
  simp only [read, htype, h]

theorem read_of_ok {type : TypeName} (htype : TypeName.ofToken t = .ok type) {f : Function}
    (h : (Function.read type ts).result = .ok f) :
    read (t :: ts) = ⟨f :: (read (Function.read type ts).rest).program,
      (Function.read type ts).faults ++ (read (Function.read type ts).rest).faults,
      (read (Function.read type ts).rest).rest⟩ := by
  rw [read]
  simp only [htype, h]

/-- **Either the first function aborts the reading, or it is read** and the reading goes on after
    it. -/
theorem read_cases (t : Token) (ts : List Token) :
    (read (t :: ts)).program = [] ∧ (∃ fault ∈ (read (t :: ts)).faults, fault.sequel = .aborted) ∨
      ∃ type f, TypeName.ofToken t = .ok type ∧ (Function.read type ts).result = .ok f := by
  cases htype : TypeName.ofToken t with
  | error e =>
    rw [read_of_type_error htype]
    exact .inl ⟨rfl, _, List.mem_singleton_self _, rfl⟩
  | ok type =>
    cases hresult : (Function.read type ts).result with
    | error e =>
      rw [read_of_error htype hresult]
      exact .inl ⟨rfl, _, List.mem_append_right _ (List.mem_singleton_self _), rfl⟩
    | ok f => exact .inr ⟨type, f, rfl, hresult⟩

theorem complete_read_nil : (read []).Complete := by
  rw [read]
  exact ⟨rfl, List.forall_mem_nil _⟩

/-- After a function that is read, the rest of the reading decides. -/
theorem complete_read_of_ok {type : TypeName} (htype : TypeName.ofToken t = .ok type) {f : Function}
    (h : (Function.read type ts).result = .ok f) :
    (read (t :: ts)).Complete ↔ (read (Function.read type ts).rest).Complete := by
  rw [read_of_ok htype h]
  constructor
  · intro hcomplete
    exact ⟨hcomplete.rest_eq, (List.forall_mem_append.mp hcomplete.resumed).2⟩
  · intro hlater
    exact ⟨hlater.rest_eq,
      List.forall_mem_append.mpr ⟨Function.resumed_of_mem_faults, hlater.resumed⟩⟩

/-- **Readings are put together where a complete one ends.** -/
theorem read_append (ts us : List Token) (h : (read ts).Complete) :
    read (ts ++ us) =
      ⟨(read ts).program ++ (read us).program, (read ts).faults ++ (read us).faults,
        (read us).rest⟩ := by
  cases ts with
  | nil =>
    rw [List.nil_append, read.eq_1]
    rfl
  | cons t ts =>
    rcases read_cases t ts with ⟨-, fault, hmem, haborted⟩ | ⟨type, f, htype, hresult⟩
    · exact absurd haborted (h.resumed fault hmem)
    · cases Function.read_settles us type ts with
      | further _ failed _ _ =>
        obtain ⟨e, he⟩ := failed
        cases hresult.symm.trans he
      | same result rest faults =>
        have hle := (Function.read type ts).suffix.length_le
        have hlater := (complete_read_of_ok htype hresult).mp h
        rw [List.cons_append, read_of_ok htype (result.trans hresult), rest, faults,
          read_append _ us hlater, read_of_ok htype hresult, List.append_assoc]
        rfl
termination_by ts.length
decreasing_by subst_vars; rw [List.length_cons]; omega

/-- **Every reading is a complete one, with nothing after it or a function that cannot be read.** -/
theorem exists_complete_append (vs : List Token) :
    ∃ ts us, vs = ts ++ us ∧ (read ts).Complete ∧
      (us = [] ∨ (read us).program = [] ∧ ∃ fault ∈ (read us).faults, fault.sequel = .aborted) := by
  cases vs with
  | nil => exact ⟨[], [], rfl, complete_read_nil, .inl rfl⟩
  | cons t vs =>
    rcases read_cases t vs with haborts | ⟨type, f, htype, hresult⟩
    · exact ⟨[], t :: vs, rfl, complete_read_nil, .inr haborts⟩
    · have hle := (Function.read type vs).suffix.length_le
      obtain ⟨ts, us, hrest, hcomplete, hus⟩ :=
        exists_complete_append (Function.read type vs).rest
      obtain ⟨taken, htaken⟩ := (Function.read type vs).suffix
      rw [hrest, ← List.append_assoc] at htaken
      obtain ⟨hresult', hrest'⟩ := Function.read_of_append (htaken ▸ hresult) (htaken ▸ hrest)
      refine ⟨t :: (taken ++ ts), us, by rw [← htaken]; rfl, ?_, hus⟩
      rw [complete_read_of_ok htype hresult', hrest']
      exact hcomplete
termination_by vs.length
decreasing_by rw [List.length_cons]; omega

/-- **Reading composes over concatenation**: what comes after a complete reading changes nothing in
    it, and is read as if it stood alone. Every reading is of that form, with nothing after the
    complete part or a function that cannot be read, so exactly the functions before that one are
    kept. -/
theorem read_append_of_complete :
    (∀ ts us, (read ts).Complete →
      (read (ts ++ us)).program = (read ts).program ++ (read us).program ∧
        (read (ts ++ us)).errors = (read ts).errors ++ (read us).errors ∧
        (read (ts ++ us)).rest = (read us).rest) ∧
    ∀ vs, ∃ ts us, vs = ts ++ us ∧ (read ts).Complete ∧ (read vs).program = (read ts).program ∧
      (us = [] ∨
        (read us).program = [] ∧ ∃ fault ∈ (read us).faults, fault.sequel = .aborted) := by
  constructor
  · intro ts us hcomplete
    rw [read_append ts us hcomplete]
    exact ⟨rfl, List.map_append, rfl⟩
  · intro vs
    obtain ⟨ts, us, rfl, hcomplete, hus⟩ := exists_complete_append vs
    refine ⟨ts, us, rfl, hcomplete, ?_, hus⟩
    have hnil : (read us).program = [] := by
      rcases hus with rfl | ⟨hnil, -⟩
      · rw [read]
      · exact hnil
    rw [read_append ts us hcomplete, hnil, List.append_nil]

/-- A function with a statement that cannot be read. -/
def faultyFunction : String := "int f() \x7b x = ; return 1; \x7d"

/-- A function, and a token that begins none. -/
def brokenTail : String := "void g() \x7b \x7d 5"

theorem read_append_of_complete_faultyFunction :
    (read (Token.scan faultyFunction)).Complete ∧ (read (Token.scan faultyFunction)).errors ≠ [] ∧
      (read (Token.scan faultyFunction ++ Token.scan brokenTail)).program =
        [⟨.int, ⟨"f", 1⟩, [], [.ret (some (.number "1")) 1]⟩, ⟨.void, ⟨"g", 1⟩, [], []⟩] := by
  have hread : read (Token.scan faultyFunction) =
      ⟨[⟨.int, ⟨"f", 1⟩, [], [.ret (some (.number "1")) 1]⟩],
        [⟨⟨.expression, some ⟨.separator, ";", ⟨1, 15⟩⟩⟩, .resumed 1⟩], []⟩ := by cbv
  have hcomplete : (read (Token.scan faultyFunction)).Complete := by
    rw [hread]
    exact ⟨rfl, List.forall_mem_singleton.mpr Sequel.noConfusion⟩
  refine ⟨hcomplete, by rw [hread]; exact List.cons_ne_nil _ _, ?_⟩
  rw [(read_append_of_complete.1 _ _ hcomplete).1, hread]
  cbv

end Program

end MiniC
