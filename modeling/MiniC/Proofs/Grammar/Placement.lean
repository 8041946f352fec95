import MiniC.Grammar.Program
import MiniC.Proofs.Tree.Lines

/-!
# Readers do not look at positions

A reader looks at the kinds and texts of tokens only. So it makes no difference whether the
positions of the tokens are taken away before they are read, or the lines from what was read from
them: the same tree comes out, the same tokens are left, and the same faults are met. The relations
`Reading.Moves` and `Tolerant.Moves` say this of two readings; each way of putting readings together
keeps them, and the readers follow along their own recursion. Main statement:
`Program.read_withoutPositions`.
-/

namespace MiniC

/-! ## 1. Taking positions away -/

/-- The token without its position. -/
def Token.withoutPosition (t : Token) : Token := { t with pos := ⟨0, 0⟩ }

/-- The tokens without their positions. -/
def Token.withoutPositions (ts : List Token) : List Token := ts.map Token.withoutPosition

/-- The error without the position of the token found. -/
def SyntaxError.withoutPosition (e : SyntaxError) : SyntaxError :=
  { e with found := e.found.map Token.withoutPosition }

/-- The fault without the position of its error. -/
def Fault.withoutPosition (fault : Fault) : Fault :=
  { fault with error := fault.error.withoutPosition }

/-- The head of a loop with every line set to 0. -/
def LoopHead.withoutLines (head : LoopHead) : LoopHead :=
  ⟨head.init.withoutLines, head.cond.withoutLines, head.step.withoutLines⟩

/-- The opening with its line set to 0. -/
def Opening.withoutLine : Opening → Opening
  | .declaration => .declaration
  | .branch => .branch
  | .loop => .loop
  | .ret _ => .ret 0
  | .call callee => .call callee.withoutLine
  | .assignment target => .assignment target.withoutLine

/-- What was read, without positions. -/
def Parse.withoutPositions (parse : Parse) : Parse :=
  ⟨parse.program.withoutLines, parse.faults.map Fault.withoutPosition,
    Token.withoutPositions parse.rest⟩

namespace Token

@[simp] theorem kind_withoutPosition (t : Token) : t.withoutPosition.kind = t.kind := rfl

@[simp] theorem is_withoutPosition (t : Token) (kind : Kind) (text : String) :
    t.withoutPosition.is kind text = t.is kind text := rfl

@[simp] theorem binaryOp?_withoutPosition (t : Token) :
    t.withoutPosition.binaryOp? = t.binaryOp? := rfl

@[simp] theorem unaryOp?_withoutPosition (t : Token) :
    t.withoutPosition.unaryOp? = t.unaryOp? := rfl

@[simp] theorem withoutPositions_nil : withoutPositions [] = [] := rfl

@[simp] theorem withoutPositions_cons (t : Token) (ts : List Token) :
    withoutPositions (t :: ts) = t.withoutPosition :: withoutPositions ts := rfl

@[simp] theorem length_withoutPositions (ts : List Token) :
    (withoutPositions ts).length = ts.length :=
  List.length_map _

end Token

@[simp] theorem startsWith_withoutPositions (kind : Token.Kind) (text : String) (ts : List Token) :
    startsWith kind text (Token.withoutPositions ts) = startsWith kind text ts := by
  cases ts <;> rfl

theorem recover_withoutPositions (ts : List Token) :
    recover (Token.withoutPositions ts) = Token.withoutPositions (recover ts) := by
  induction ts with
  | nil => rfl
  | cons t ts ih =>
    rw [Token.withoutPositions_cons, recover, recover, Token.is_withoutPosition,
      Token.is_withoutPosition, ih]
    split
    · rfl
    · split <;> rfl

theorem recoveryLength_withoutPositions (ts : List Token) :
    recoveryLength (Token.withoutPositions ts) = recoveryLength ts := by
  rw [recoveryLength, recoveryLength, recover_withoutPositions, Token.length_withoutPositions,
    Token.length_withoutPositions]

theorem Opening.of?_withoutPosition (t : Token) (ts : List Token) :
    Opening.of? t.withoutPosition (Token.withoutPositions ts) =
      (Opening.of? t ts).map Opening.withoutLine := by
  simp only [Opening.of?, Token.is_withoutPosition, Token.kind_withoutPosition,
    startsWith_withoutPositions, apply_ite (Option.map Opening.withoutLine), Option.map_some,
    Option.map_none]
  rfl

/-! ## 2. Readings -/

section Readings

variable {α β : Type} {ts us : List Token} {g : α → α} {k : β → β}

/-- The result, with `g` done to a value and the position taken away from an error. -/
def moved (g : α → α) : Except SyntaxError α → Except SyntaxError α
  | .ok value => .ok (g value)
  | .error e => .error e.withoutPosition

/-- **The second reading is the first one without positions**, where `g` takes the lines away from
    a value. -/
structure Reading.Moves (g : α → α) (r : Reading ts α) (r' : Reading us α) : Prop where
  result : r'.result = moved g r.result
  rest : r'.rest = Token.withoutPositions r.rest

namespace Reading

theorem moves_done {value value' : α} (h : value' = g value) :
    Moves g (done value : Reading ts α) (done value' : Reading (Token.withoutPositions ts) α) :=
  ⟨congrArg Except.ok h, rfl⟩

theorem moves_fail (expected : Expected) :
    Moves g (fail expected : Reading ts α)
      (fail expected : Reading (Token.withoutPositions ts) α) := by
  refine ⟨?_, rfl⟩
  rw [result_fail, result_fail, Token.withoutPositions, List.head?_map]
  rfl

theorem Moves.after {r : Reading ts α} {r' : Reading us α} (h : Moves g r r') (t u : Token) :
    Moves g (r.after t) (r'.after u) :=
  ⟨h.result, h.rest⟩

theorem Moves.map {r : Reading ts α} {r' : Reading us α} (h : Moves g r r') {f f' : α → β}
    (hf : ∀ value, f' (g value) = k (f value)) : Moves k (r.map f) (r'.map f') := by
  refine ⟨?_, h.rest⟩
  rw [result_map, result_map, h.result]
  cases r.result with
  | ok value => exact congrArg Except.ok (hf value)
  | error e => rfl

theorem Moves.andThen {r : Reading ts α} {r' : Reading us α} (h : Moves g r r')
    {next : α → (rest : List Token) → rest.length ≤ ts.length → Reading rest β}
    {next' : α → (rest : List Token) → rest.length ≤ us.length → Reading rest β}
    (hnext : ∀ value rest hle hle',
      Moves k (next value rest hle) (next' (g value) (Token.withoutPositions rest) hle')) :
    Moves k (r.andThen next) (r'.andThen next') := by
  obtain ⟨result', rest', suffix'⟩ := r'
  obtain ⟨hresult', rfl⟩ : result' = moved g r.result ∧ rest' = Token.withoutPositions r.rest :=
    ⟨h.result, h.rest⟩
  cases hresult : r.result with
  | error e =>
    rw [hresult] at hresult'
    rw [andThen_of_error hresult, andThen_of_error hresult']
    exact ⟨rfl, rfl⟩
  | ok value =>
    rw [hresult] at hresult'
    rw [andThen_of_ok hresult, andThen_of_ok hresult']
    have hmoves := hnext value r.rest r.suffix.length_le suffix'.length_le
    exact ⟨hmoves.result, hmoves.rest⟩

/-- Two readings that choose alike. -/
theorem Moves.ite {p p' : Prop} [Decidable p] [Decidable p'] {r₁ r₂ : Reading ts α}
    {r₁' r₂' : Reading us α} (hp : p' ↔ p) (h₁ : Moves g r₁ r₁') (h₂ : Moves g r₂ r₂') :
    Moves g (if p then r₁ else r₂) (if p' then r₁' else r₂') := by
  by_cases h : p
  · rw [if_pos h, if_pos (hp.mpr h)]
    exact h₁
  · rw [if_neg h, if_neg (mt hp.mp h)]
    exact h₂

end Reading

theorem moves_expect (kind : Token.Kind) (text : String) (ts : List Token) :
    Reading.Moves Token.withoutPosition (expect kind text ts)
      (expect kind text (Token.withoutPositions ts)) := by
  cases ts with
  | nil => exact Reading.moves_fail _
  | cons t ts =>
    rw [Token.withoutPositions_cons, expect, expect]
    exact .ite Iff.rfl ((Reading.moves_done rfl).after t _) ⟨rfl, rfl⟩

theorem moves_expectKind (kind : Token.Kind) (ts : List Token) :
    Reading.Moves Token.withoutPosition (expectKind kind ts)
      (expectKind kind (Token.withoutPositions ts)) := by
  cases ts with
  | nil => exact Reading.moves_fail _
  | cons t ts =>
    rw [Token.withoutPositions_cons, expectKind, expectKind]
    exact .ite Iff.rfl ((Reading.moves_done rfl).after t _) ⟨rfl, rfl⟩

end Readings

/-! ## 3. Expressions -/

namespace Expr

mutual

theorem readLevel_moves (level : Nat) (ts : List Token) :
    Reading.Moves withoutLines (readLevel level ts)
      (readLevel level (Token.withoutPositions ts)) := by
  match level with
  | 0 =>
    rw [readLevel, readLevel]
    exact readUnary_moves ts
  | level + 1 =>
    rw [readLevel, readLevel]
    exact (readLevel_moves level ts).andThen fun left rest hle _ => readChain_moves level left rest
termination_by (ts.length, level + 2)
decreasing_by all_goals omega

theorem readChain_moves (level : Nat) (left : Expr) (ts : List Token) :
    Reading.Moves withoutLines (readChain level left ts)
      (readChain level left.withoutLines (Token.withoutPositions ts)) := by
  cases ts with
  | nil =>
    rw [Token.withoutPositions_nil, readChain, readChain]
    exact Reading.moves_done rfl
  | cons t ts =>
    rw [Token.withoutPositions_cons, readChain, readChain, Token.binaryOp?_withoutPosition]
    cases t.binaryOp? with
    | none => exact Reading.moves_done rfl
    | some op =>
      refine .ite Iff.rfl (Reading.Moves.after ?_ t _) (Reading.moves_done rfl)
      refine (readLevel_moves level ts).andThen fun right rest hle _ => ?_
      exact readChain_moves level (.binary op left right) rest
termination_by (ts.length, 0)
decreasing_by all_goals rw [List.length_cons]; omega

theorem readUnary_moves (ts : List Token) :
    Reading.Moves withoutLines (readUnary ts) (readUnary (Token.withoutPositions ts)) := by
  cases ts with
  | nil =>
    rw [Token.withoutPositions_nil, readUnary]
    exact Reading.moves_fail _
  | cons t ts =>
    rw [Token.withoutPositions_cons, readUnary, readUnary, Token.unaryOp?_withoutPosition]
    cases t.unaryOp? with
    | none => exact readPrimary_moves t ts
    | some op =>
      refine Reading.Moves.after ?_ t _
      exact (readUnary_moves ts).map fun _ => rfl
termination_by (ts.length, 1)
decreasing_by all_goals simp only [List.length_cons]; omega

theorem readPrimary_moves (t : Token) (ts : List Token) :
    Reading.Moves withoutLines (readPrimary t ts)
      (readPrimary t.withoutPosition (Token.withoutPositions ts)) := by
  have hcall := startsWith_withoutPositions .separator "(" ts
  rw [readPrimary, readPrimary, Token.kind_withoutPosition]
  cases t.kind with
  | float | integer | string => exact (Reading.moves_done rfl).after t _
  | operator | mismatch => exact Reading.moves_fail _
  | identifier =>
    refine .ite (by rw [hcall]) (Reading.Moves.after ?_ t _) ((Reading.moves_done rfl).after t _)
    exact (readArguments_moves ts).map fun _ => rfl
  | keyword =>
    refine .ite (by rw [hcall]; exact Iff.rfl) (Reading.Moves.after ?_ t _) (Reading.moves_fail _)
    exact (readArguments_moves ts).map fun _ => rfl
  | separator =>
    refine .ite Iff.rfl (Reading.Moves.after ?_ t _) (Reading.moves_fail _)
    refine (readLevel_moves BinaryOp.levels ts).andThen fun e rest hle _ => ?_
    exact (moves_expect _ _ rest).map fun _ => rfl
termination_by (ts.length + 1, 0)
decreasing_by all_goals omega

theorem readArguments_moves (ts : List Token) :
    Reading.Moves withoutLinesAll (readArguments ts)
      (readArguments (Token.withoutPositions ts)) := by
  rw [readArguments, readArguments]
  refine (moves_expect _ _ ts).andThen fun _ rest hle _ => ?_
  refine .ite (by simp) ?_ (readFirstArgument_moves rest)
  exact (moves_expect _ _ rest).map fun _ => rfl
termination_by (ts.length, BinaryOp.levels + 4)
decreasing_by all_goals omega

theorem readFirstArgument_moves (ts : List Token) :
    Reading.Moves withoutLinesAll (readFirstArgument ts)
      (readFirstArgument (Token.withoutPositions ts)) := by
  rw [readFirstArgument, readFirstArgument]
  refine (readLevel_moves BinaryOp.levels ts).andThen fun arg rest hle _ => ?_
  exact (readMoreArguments_moves rest).map fun _ => rfl
termination_by (ts.length, BinaryOp.levels + 3)
decreasing_by all_goals omega

theorem readMoreArguments_moves (ts : List Token) :
    Reading.Moves withoutLinesAll (readMoreArguments ts)
      (readMoreArguments (Token.withoutPositions ts)) := by
  cases ts with
  | nil =>
    rw [Token.withoutPositions_nil, readMoreArguments]
    exact (moves_expect _ _ []).map fun _ => rfl
  | cons t ts =>
    rw [Token.withoutPositions_cons, readMoreArguments, readMoreArguments]
    refine .ite Iff.rfl ((readFirstArgument_moves ts).after t _) ?_
    exact (moves_expect _ _ (t :: ts)).map fun _ => rfl
termination_by (ts.length, 0)
decreasing_by all_goals rw [List.length_cons]; omega

end

theorem read_moves (ts : List Token) :
    Reading.Moves withoutLines (read ts) (read (Token.withoutPositions ts)) :=
  readLevel_moves BinaryOp.levels ts

/-! ## 4. Clauses -/

theorem readInit_moves (ts : List Token) :
    Reading.Moves (Option.map withoutLines) (readInit ts)
      (readInit (Token.withoutPositions ts)) := by
  cases ts with
  | nil => exact Reading.moves_done rfl
  | cons t ts =>
    rw [Token.withoutPositions_cons, readInit, readInit]
    refine .ite Iff.rfl (Reading.Moves.after ?_ t _) (Reading.moves_done rfl)
    exact (read_moves ts).map fun _ => rfl

theorem readReturned_moves (ts : List Token) :
    Reading.Moves (Option.map withoutLines) (readReturned ts)
      (readReturned (Token.withoutPositions ts)) := by
  refine .ite (by simp) ?_ ?_
  · exact (moves_expect _ _ ts).map fun _ => rfl
  · refine (read_moves ts).andThen fun value rest _ _ => ?_
    exact (moves_expect _ _ rest).map fun _ => rfl

theorem readCondition_moves (ts : List Token) :
    Reading.Moves withoutLines (readCondition ts)
      (readCondition (Token.withoutPositions ts)) := by
  refine (moves_expect _ _ ts).andThen fun _ rest _ _ => ?_
  refine (read_moves rest).andThen fun cond rest _ _ => ?_
  exact (moves_expect _ _ rest).map fun _ => rfl

end Expr

theorem Declaration.read_moves (ts : List Token) :
    Reading.Moves Declaration.withoutLines (Declaration.read ts)
      (Declaration.read (Token.withoutPositions ts)) := by
  refine (moves_expectKind _ ts).andThen fun name rest _ _ => ?_
  refine (Expr.readInit_moves rest).andThen fun init rest _ _ => ?_
  exact (moves_expect _ _ rest).map fun _ => rfl

theorem Assignment.readTo_moves (target : Ident) (ts : List Token) :
    Reading.Moves Assignment.withoutLines (Assignment.readTo target ts)
      (Assignment.readTo target.withoutLine (Token.withoutPositions ts)) := by
  refine (moves_expect _ _ ts).andThen fun _ rest _ _ => ?_
  exact (Expr.read_moves rest).map fun _ => rfl

theorem Assignment.read_moves (ts : List Token) :
    Reading.Moves Assignment.withoutLines (Assignment.read ts)
      (Assignment.read (Token.withoutPositions ts)) :=
  (moves_expectKind _ ts).andThen fun name rest _ _ => Assignment.readTo_moves name.ident rest

theorem LoopHead.read_moves (ts : List Token) :
    Reading.Moves LoopHead.withoutLines (LoopHead.read ts)
      (LoopHead.read (Token.withoutPositions ts)) := by
  refine (moves_expect _ _ ts).andThen fun _ rest _ _ => ?_
  refine (moves_expect _ _ rest).andThen fun _ rest _ _ => ?_
  refine (Declaration.read_moves rest).andThen fun init rest _ _ => ?_
  refine (Expr.read_moves rest).andThen fun cond rest _ _ => ?_
  refine (moves_expect _ _ rest).andThen fun _ rest _ _ => ?_
  refine (Assignment.read_moves rest).andThen fun step rest _ _ => ?_
  exact (moves_expect _ _ rest).map fun _ => rfl

/-! ## 5. Tolerant readings -/

section Tolerant

variable {α β : Type} {ts us vs ws : List Token} {g : α → α} {k : β → β}

/-- **The second reading is the first one without positions**, its faults included. -/
structure Tolerant.Moves (g : α → α) (r : Tolerant ts α) (r' : Tolerant us α) : Prop where
  reading : Reading.Moves g r.toReading r'.toReading
  faults : r'.faults = r.faults.map Fault.withoutPosition

theorem Reading.Moves.tolerant {r : Reading ts α} {r' : Reading us α} (h : Reading.Moves g r r') :
    Tolerant.Moves g r.tolerant r'.tolerant :=
  ⟨h, rfl⟩

namespace Tolerant

theorem Moves.after {r : Tolerant ts α} {r' : Tolerant us α} (h : Moves g r r') (t u : Token) :
    Moves g (r.after t) (r'.after u) :=
  ⟨h.reading.after t u, h.faults⟩

theorem Moves.widen {r : Tolerant ts α} {r' : Tolerant us α} (h : Moves g r r') (hts : ts <:+ vs)
    (hus : us <:+ ws) : Moves g (r.widen hts) (r'.widen hus) :=
  ⟨⟨h.reading.result, h.reading.rest⟩, h.faults⟩

theorem Moves.noting {r : Tolerant ts α} {r' : Tolerant us α} (h : Moves g r r')
    {fault fault' : Fault} (hfault : fault' = fault.withoutPosition) :
    Moves g (r.noting fault) (r'.noting fault') := by
  refine ⟨h.reading, ?_⟩
  rw [faults_noting, faults_noting, h.faults, hfault, List.map_cons]

theorem Moves.map {r : Tolerant ts α} {r' : Tolerant us α} (h : Moves g r r') {f f' : α → β}
    (hf : ∀ value, f' (g value) = k (f value)) : Moves k (r.map f) (r'.map f') :=
  ⟨h.reading.map hf, h.faults⟩

theorem Moves.follow {r : Tolerant ts α} {r' : Tolerant us α} (h : Moves g r r')
    {next : Except SyntaxError α → (rest : List Token) → rest.length ≤ ts.length → Tolerant rest β}
    {next' : Except SyntaxError α → (rest : List Token) → rest.length ≤ us.length →
      Tolerant rest β}
    (hnext : ∀ result rest hle hle',
      Moves k (next result rest hle) (next' (moved g result) (Token.withoutPositions rest) hle')) :
    Moves k (r.follow next) (r'.follow next') := by
  obtain ⟨⟨result', rest', suffix'⟩, faults'⟩ := r'
  obtain ⟨rfl, rfl, rfl⟩ : result' = moved g r.result ∧
      rest' = Token.withoutPositions r.rest ∧ faults' = r.faults.map Fault.withoutPosition :=
    ⟨h.reading.result, h.reading.rest, h.faults⟩
  have hmoves := hnext r.result r.rest r.suffix.length_le suffix'.length_le
  refine ⟨⟨hmoves.reading.result, hmoves.reading.rest⟩, ?_⟩
  show _ ++ _ = List.map _ (_ ++ _)
  rw [List.map_append]
  exact congrArg (_ ++ ·) hmoves.faults

theorem Moves.andThen {r : Tolerant ts α} {r' : Tolerant us α} (h : Moves g r r')
    {next : α → (rest : List Token) → rest.length ≤ ts.length → Tolerant rest β}
    {next' : α → (rest : List Token) → rest.length ≤ us.length → Tolerant rest β}
    (hnext : ∀ value rest hle hle',
      Moves k (next value rest hle) (next' (g value) (Token.withoutPositions rest) hle')) :
    Moves k (r.andThen next) (r'.andThen next') := by
  refine h.follow fun result rest hle hle' => ?_
  cases result with
  | ok value => exact hnext value rest hle hle'
  | error e => exact ⟨⟨rfl, rfl⟩, rfl⟩

end Tolerant

end Tolerant

/-! ## 6. Statements -/

namespace Stmt

mutual

theorem readBlock_moves (ts : List Token) :
    Tolerant.Moves withoutLinesAll (readBlock ts) (readBlock (Token.withoutPositions ts)) := by
  rw [readBlock, readBlock]
  exact (moves_expect _ _ ts).tolerant.andThen fun _ rest hle _ => readAll_moves rest
termination_by (ts.length, 1)
decreasing_by all_goals omega

theorem readAll_moves (ts : List Token) :
    Tolerant.Moves withoutLinesAll (readAll ts) (readAll (Token.withoutPositions ts)) := by
  cases ts with
  | nil =>
    rw [Token.withoutPositions_nil, readAll]
    exact (Reading.moves_fail _).tolerant
  | cons t ts =>
    rw [Token.withoutPositions_cons, readAll, readAll]
    by_cases ht : t.is .separator Token.closeBrace = true
    · rw [dif_pos ht, dif_pos (show t.withoutPosition.is _ _ = true from ht)]
      exact ((Reading.moves_done rfl).after t _).tolerant
    · rw [dif_neg ht, dif_neg (show ¬ t.withoutPosition.is _ _ = true from ht)]
      simp only [Opening.of?_withoutPosition]
      cases Opening.of? t ts with
      | none =>
        have hle := length_recover_cons_le (Bool.eq_false_iff.mpr ht) ts
        refine Tolerant.Moves.noting (Tolerant.Moves.widen ?_ _ _) ?_
        · rw [← Token.withoutPositions_cons, recover_withoutPositions]
          exact readAll_moves (recover (t :: ts))
        · rw [← Token.withoutPositions_cons, recoveryLength_withoutPositions]
          rfl
      | some opening =>
        refine Tolerant.Moves.after ((readOpened_moves opening ts).follow ?_) t _
        intro result rest hle _
        cases result with
        | ok stmt => exact (readAll_moves rest).map fun _ => rfl
        | error e =>
          have hless := (recover_suffix rest).length_le
          refine Tolerant.Moves.noting (Tolerant.Moves.widen ?_ _ _) ?_
          · rw [recover_withoutPositions]
            exact readAll_moves (recover rest)
          · rw [recoveryLength_withoutPositions]
            rfl
termination_by (ts.length, 0)
decreasing_by all_goals rw [List.length_cons]; omega

theorem readOpened_moves (opening : Opening) (ts : List Token) :
    Tolerant.Moves withoutLines (readOpened opening ts)
      (readOpened opening.withoutLine (Token.withoutPositions ts)) := by
  match opening with
  | .declaration =>
    rw [Opening.withoutLine, readOpened, readOpened]
    refine Reading.Moves.tolerant ?_
    exact (Declaration.read_moves ts).map fun _ => rfl
  | .ret line =>
    rw [Opening.withoutLine, readOpened, readOpened]
    refine Reading.Moves.tolerant ?_
    exact (Expr.readReturned_moves ts).map fun _ => rfl
  | .call callee =>
    rw [Opening.withoutLine, readOpened, readOpened]
    refine Reading.Moves.tolerant ((Expr.readArguments_moves ts).andThen fun args rest _ _ => ?_)
    exact (moves_expect _ _ rest).map fun _ => rfl
  | .assignment target =>
    rw [Opening.withoutLine, readOpened, readOpened]
    refine Reading.Moves.tolerant ((Assignment.readTo_moves target ts).andThen fun a rest _ _ => ?_)
    exact (moves_expect _ _ rest).map fun _ => rfl
  | .branch =>
    rw [Opening.withoutLine, readOpened, readOpened]
    refine (Expr.readCondition_moves ts).tolerant.andThen fun cond rest hle _ => ?_
    refine (readBlock_moves rest).andThen fun yes rest' hle' _ => ?_
    exact (readElse_moves rest').map fun _ => rfl
  | .loop =>
    rw [Opening.withoutLine, readOpened, readOpened]
    refine (LoopHead.read_moves ts).tolerant.andThen fun head rest hle _ => ?_
    exact (readBlock_moves rest).map fun _ => rfl
termination_by (ts.length, 3)
decreasing_by all_goals omega

theorem readElse_moves (ts : List Token) :
    Tolerant.Moves withoutLinesElse (readElse ts) (readElse (Token.withoutPositions ts)) := by
  cases ts with
  | nil =>
    rw [Token.withoutPositions_nil, readElse]
    exact (Reading.moves_done rfl).tolerant
  | cons t ts =>
    rw [Token.withoutPositions_cons, readElse, readElse, Token.is_withoutPosition]
    split
    · refine Tolerant.Moves.after ?_ t _
      exact (readBlock_moves ts).map fun _ => rfl
    · exact (Reading.moves_done rfl).tolerant
termination_by (ts.length, 2)
decreasing_by all_goals rw [List.length_cons]; omega

end

end Stmt

/-! ## 7. Programs -/

theorem TypeName.ofToken_withoutPosition (t : Token) :
    TypeName.ofToken t.withoutPosition = moved id (TypeName.ofToken t) := by
  simp only [TypeName.ofToken, apply_ite (moved id)]
  rfl

theorem Param.readSome_moves (ts : List Token) :
    Reading.Moves (List.map Param.withoutLine) (Param.readSome ts)
      (Param.readSome (Token.withoutPositions ts)) := by
  rw [Param.readSome, Param.readSome]
  refine (moves_expect _ _ ts).andThen fun _ rest hle _ => ?_
  refine (moves_expectKind _ rest).andThen fun name rest' hle' _ => ?_
  cases rest' with
  | nil => exact (moves_expect _ _ []).map fun _ => rfl
  | cons t rest' =>
    refine .ite Iff.rfl (Reading.Moves.after ?_ t _) ?_
    · exact (Param.readSome_moves rest').map fun _ => rfl
    · exact (moves_expect _ _ (t :: rest')).map fun _ => rfl
termination_by ts.length
decreasing_by simp only [List.length_cons] at *; omega

theorem Param.readList_moves (ts : List Token) :
    Reading.Moves (List.map Param.withoutLine) (Param.readList ts)
      (Param.readList (Token.withoutPositions ts)) := by
  refine (moves_expect _ _ ts).andThen fun _ rest _ _ => ?_
  refine .ite (by simp) ?_ (Param.readSome_moves rest)
  exact (moves_expect _ _ rest).map fun _ => rfl

theorem Function.read_moves (type : TypeName) (ts : List Token) :
    Tolerant.Moves Function.withoutLines (Function.read type ts)
      (Function.read type (Token.withoutPositions ts)) := by
  refine (moves_expectKind _ ts).tolerant.andThen fun name rest _ _ => ?_
  refine (Param.readList_moves rest).tolerant.andThen fun params rest _ _ => ?_
  exact (Stmt.readBlock_moves rest).map fun _ => rfl

/-- **Without positions, tokens read as the same program without lines**, with the same faults. -/
theorem Program.read_withoutPositions (ts : List Token) :
    Program.read (Token.withoutPositions ts) = (Program.read ts).withoutPositions := by
  cases ts with
  | nil =>
    rw [Token.withoutPositions_nil, Program.read]
    rfl
  | cons t ts =>
    rw [Token.withoutPositions_cons, Program.read, Program.read, TypeName.ofToken_withoutPosition]
    cases TypeName.ofToken t with
    | error e => rfl
    | ok type =>
      obtain ⟨⟨hresult, hrest⟩, hfaults⟩ := Function.read_moves type ts
      have hle := (Function.read type ts).suffix.length_le
      have ih := Program.read_withoutPositions (Function.read type ts).rest
      simp only [moved, id_eq, hresult, hrest, hfaults, ih]
      cases (Function.read type ts).result with
      | error e => simp [Parse.withoutPositions, Fault.withoutPosition, Program.withoutLines]
      | ok f => simp [Parse.withoutPositions, Program.withoutLines]
termination_by ts.length
decreasing_by rw [List.length_cons]; omega

end MiniC
