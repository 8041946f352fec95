import MiniC.Proofs.Grammar.Spelling
import MiniC.Proofs.Grammar.Yield

/-!
# Readers yield only what the grammar spells

When a reader yields a tree, the tokens it took spell that tree, and what it leaves is the rest of
its input. For expressions the recursion is that of the readers themselves, on the tokens left and
the level; for statements it is the same with blocks in place of levels.
-/

namespace MiniC

/-- What a reader took from `ts` to leave `rest` spells the value. -/
def Took {α : Type} (spells : List Token → α → Prop) (ts : List Token) (value : α)
    (rest : List Token) : Prop :=
  ∃ us, ts = us ++ rest ∧ spells us value

/-! ## 1. Expressions -/

namespace Expr

/-- The separator that closes a list of arguments, and nothing else, is left to read. -/
theorem yields_close_iff {ts rest : List Token} {args : List Expr} :
    ((expectSeparator ")" ts).map fun _ => ([] : List Expr)).Yields args rest ↔
      args = [] ∧ ∃ c, ts = c :: rest ∧ c.is .separator ")" = true := by
  rw [Reading.yields_map_iff]
  constructor
  · intro h
    obtain ⟨c, hc, rfl⟩ := h
    exact ⟨rfl, c, yields_expect_iff.mp hc⟩
  · intro h
    obtain ⟨rfl, c, hc⟩ := h
    exact ⟨c, yields_expect_iff.mpr hc, rfl⟩

mutual

theorem readLevel_sound (level : Nat) (ts : List Token) {e : Expr} {rest : List Token}
    (h : (readLevel level ts).Yields e rest) : Took (SpellsLevel level) ts e rest := by
  match level with
  | 0 =>
    rw [readLevel] at h
    obtain ⟨us, hts, hus⟩ := readUnary_sound ts h
    exact ⟨us, hts, .unary hus⟩
  | level + 1 =>
    rw [readLevel, Reading.yields_andThen_iff] at h
    obtain ⟨left, mid, hle, hleft, hchain⟩ := h
    obtain ⟨us, rfl, hus⟩ := readLevel_sound level ts hleft
    obtain ⟨vs, tail, rfl, hvs, rfl⟩ := readChain_sound level left mid hchain
    exact ⟨us ++ vs, (List.append_assoc us vs rest).symm, .chain hus hvs⟩
termination_by (ts.length, level + 2)
decreasing_by all_goals subst_vars; omega

theorem readChain_sound (level : Nat) (left : Expr) (ts : List Token) {e : Expr}
    {rest : List Token} (h : (readChain level left ts).Yields e rest) :
    ∃ us tail, ts = us ++ rest ∧ SpellsChain level us tail ∧ e = foldChain left tail := by
  match ts with
  | [] =>
    rw [readChain, Reading.yields_done_iff] at h
    obtain ⟨rfl, rfl⟩ := h
    exact ⟨[], [], rfl, .nil, rfl⟩
  | t :: ts =>
    rw [readChain] at h
    cases hop : t.binaryOp? with
    | none =>
      simp only [hop, Reading.yields_done_iff] at h
      obtain ⟨rfl, rfl⟩ := h
      exact ⟨[], [], rfl, .nil, rfl⟩
    | some op =>
      simp only [hop] at h
      split at h
      case isTrue hlevel =>
        rw [Reading.yields_after_iff, Reading.yields_andThen_iff] at h
        obtain ⟨right, mid, hle, hright, hchain⟩ := h
        obtain ⟨us, hts, hus⟩ := readLevel_sound level ts hright
        obtain ⟨vs, tail, hmid, hvs, rfl⟩ :=
          readChain_sound level (.binary op left right) mid hchain
        refine ⟨t :: (us ++ vs), (op, right) :: tail, ?_, ?_, rfl⟩
        · rw [hts, hmid, List.cons_append, List.append_assoc]
        · exact .cons (isOperator_iff.mpr ⟨hop, hlevel⟩) hus hvs
      case isFalse =>
        rw [Reading.yields_done_iff] at h
        obtain ⟨rfl, rfl⟩ := h
        exact ⟨[], [], rfl, .nil, rfl⟩
termination_by (ts.length, 0)
decreasing_by all_goals rw [List.length_cons]; omega

theorem readUnary_sound (ts : List Token) {e : Expr} {rest : List Token}
    (h : (readUnary ts).Yields e rest) : Took SpellsUnary ts e rest := by
  match ts with
  | [] =>
    rw [readUnary] at h
    exact absurd h Reading.not_yields_fail
  | t :: ts =>
    rw [readUnary] at h
    cases hop : t.unaryOp? with
    | some op =>
      simp only [hop, Reading.yields_after_iff, Reading.yields_map_iff] at h
      obtain ⟨operand, hoperand, rfl⟩ := h
      obtain ⟨us, rfl, hus⟩ := readUnary_sound ts hoperand
      exact ⟨t :: us, rfl, .op op (unaryOp?_eq_some_iff.mp hop) hus⟩
    | none =>
      simp only [hop] at h
      obtain ⟨us, hts, hus⟩ := readPrimary_sound t ts h
      exact ⟨us, hts, .primary hus⟩
termination_by (ts.length, 1)
decreasing_by all_goals simp only [List.length_cons]; omega

theorem readPrimary_sound (t : Token) (ts : List Token) {e : Expr} {rest : List Token}
    (h : (readPrimary t ts).Yields e rest) : Took SpellsPrimary (t :: ts) e rest := by
  rw [readPrimary] at h
  split at h
  case h_1 hkind | h_2 hkind =>
    rw [Reading.yields_after_iff, Reading.yields_done_iff] at h
    obtain ⟨rfl, rfl⟩ := h
    exact ⟨[t], rfl, .number (by simp [hkind])⟩
  case h_3 hkind =>
    rw [Reading.yields_after_iff, Reading.yields_done_iff] at h
    obtain ⟨rfl, rfl⟩ := h
    exact ⟨[t], rfl, .string hkind⟩
  case h_4 hkind =>
    split at h
    case isTrue =>
      rw [Reading.yields_after_iff, Reading.yields_map_iff] at h
      obtain ⟨args, hargs, rfl⟩ := h
      obtain ⟨us, hts, hus⟩ := readArguments_sound t ts (.inl hkind) hargs
      exact ⟨us, hts, .call hus⟩
    case isFalse =>
      rw [Reading.yields_after_iff, Reading.yields_done_iff] at h
      obtain ⟨rfl, rfl⟩ := h
      exact ⟨[t], rfl, .ident hkind⟩
  case h_5 hkind =>
    split at h
    case isTrue hprintf =>
      have htext : t.text = "printf" := by
        rw [Bool.and_eq_true, decide_eq_true_eq] at hprintf
        exact hprintf.1
      rw [Reading.yields_after_iff, Reading.yields_map_iff] at h
      obtain ⟨args, hargs, rfl⟩ := h
      have hcallee : IsCallee t := .inr ((Token.is_iff t _ _).mpr ⟨hkind, htext⟩)
      obtain ⟨us, hts, hus⟩ := readArguments_sound t ts hcallee hargs
      exact ⟨us, hts, .call hus⟩
    case isFalse => exact absurd h Reading.not_yields_fail
  case h_6 hkind =>
    split at h
    case isTrue htext =>
      rw [Reading.yields_after_iff, Reading.yields_andThen_iff] at h
      obtain ⟨inner, mid, hle, hinner, hclose⟩ := h
      rw [Reading.yields_map_iff] at hclose
      obtain ⟨c, hc, rfl⟩ := hclose
      obtain ⟨rfl, hclose⟩ := yields_expect_iff.mp hc
      obtain ⟨us, rfl, hus⟩ := readLevel_sound BinaryOp.levels ts hinner
      refine ⟨t :: (us ++ [c]), by simp, ?_⟩
      exact .parens ((Token.is_iff t _ _).mpr ⟨hkind, htext⟩) hus hclose
    case isFalse => exact absurd h Reading.not_yields_fail
  case h_7 | h_8 => exact absurd h Reading.not_yields_fail
termination_by (ts.length + 1, 0)
decreasing_by all_goals omega

theorem readArguments_sound (t : Token) (ts : List Token) {args : List Expr} {rest : List Token}
    (ht : IsCallee t) (h : (readArguments ts).Yields args rest) :
    Took (SpellsCall · t.ident ·) (t :: ts) args rest := by
  rw [readArguments, Reading.yields_andThen_iff] at h
  obtain ⟨o, mid, hle, hopen, h⟩ := h
  obtain ⟨rfl, ho⟩ := yields_expect_iff.mp hopen
  split at h
  case isTrue =>
    rw [yields_close_iff] at h
    obtain ⟨rfl, c, rfl, hc⟩ := h
    exact ⟨[t, o, c], rfl, .none ht ho hc⟩
  case isFalse =>
    obtain ⟨arg, more, us, vs, c, rfl, rfl, hus, hvs, hc⟩ := readFirstArgument_sound mid h
    exact ⟨t :: o :: (us ++ vs ++ [c]), by simp, .some ht ho hus hvs hc⟩
termination_by (ts.length, BinaryOp.levels + 4)
decreasing_by all_goals subst_vars; simp only [List.length_cons]; omega

theorem readFirstArgument_sound (ts : List Token) {args : List Expr} {rest : List Token}
    (h : (readFirstArgument ts).Yields args rest) :
    ∃ arg more us vs c, ts = us ++ (vs ++ c :: rest) ∧ args = arg :: more ∧
      SpellsExpr us arg ∧ SpellsMore vs more ∧ c.is .separator ")" = true := by
  rw [readFirstArgument, Reading.yields_andThen_iff] at h
  obtain ⟨arg, mid, hle, harg, h⟩ := h
  rw [Reading.yields_map_iff] at h
  obtain ⟨more, hmore, rfl⟩ := h
  obtain ⟨us, rfl, hus⟩ := readLevel_sound BinaryOp.levels ts harg
  obtain ⟨vs, c, rfl, hvs, hc⟩ := readMoreArguments_sound mid hmore
  exact ⟨arg, more, us, vs, c, rfl, rfl, hus, hvs, hc⟩
termination_by (ts.length, BinaryOp.levels + 3)
decreasing_by all_goals subst_vars; omega

theorem readMoreArguments_sound (ts : List Token) {args : List Expr} {rest : List Token}
    (h : (readMoreArguments ts).Yields args rest) :
    ∃ us c, ts = us ++ c :: rest ∧ SpellsMore us args ∧ c.is .separator ")" = true := by
  match ts with
  | [] =>
    rw [readMoreArguments, yields_close_iff] at h
    obtain ⟨-, c, hnil, -⟩ := h
    cases hnil
  | t :: ts =>
    rw [readMoreArguments] at h
    split at h
    case isTrue ht =>
      rw [Reading.yields_after_iff] at h
      obtain ⟨arg, more, us, vs, c, rfl, rfl, hus, hvs, hc⟩ := readFirstArgument_sound ts h
      exact ⟨t :: (us ++ vs), c, by simp, .cons ht hus hvs, hc⟩
    case isFalse =>
      rw [yields_close_iff] at h
      obtain ⟨rfl, c, hts, hc⟩ := h
      exact ⟨[], c, hts, .nil, hc⟩
termination_by (ts.length, 0)
decreasing_by all_goals rw [List.length_cons]; omega

end

theorem read_sound {ts : List Token} {e : Expr} {rest : List Token} (h : (read ts).Yields e rest) :
    Took SpellsExpr ts e rest :=
  readLevel_sound BinaryOp.levels ts h

/-! ## 2. Clauses -/

theorem readInit_sound {ts : List Token} {init : Option Expr} {rest : List Token}
    (h : (readInit ts).Yields init rest) : Took SpellsInit ts init rest := by
  unfold readInit at h
  split at h
  case h_1 =>
    obtain ⟨rfl, rfl⟩ := Reading.yields_done_iff.mp h
    exact ⟨[], rfl, .none⟩
  case h_2 t ts =>
    split at h
    case isTrue ht =>
      rw [Reading.yields_after_iff, Reading.yields_map_iff] at h
      obtain ⟨e, he, rfl⟩ := h
      obtain ⟨us, rfl, hus⟩ := read_sound he
      exact ⟨t :: us, rfl, .some ht hus⟩
    case isFalse =>
      obtain ⟨rfl, rfl⟩ := Reading.yields_done_iff.mp h
      exact ⟨[], rfl, .none⟩

/-- What stands between `return` and its semicolon. -/
theorem readReturned_sound {ts : List Token} {value : Option Expr} {rest : List Token}
    (h : (readReturned ts).Yields value rest) :
    ∃ us s, ts = us ++ s :: rest ∧ SpellsReturned us value ∧ s.is .separator ";" = true := by
  unfold readReturned at h
  split at h
  case isTrue =>
    rw [Reading.yields_map_iff] at h
    obtain ⟨s, hs, rfl⟩ := h
    obtain ⟨rfl, hsemi⟩ := yields_expect_iff.mp hs
    exact ⟨[], s, rfl, .none, hsemi⟩
  case isFalse =>
    rw [Reading.yields_andThen_iff] at h
    obtain ⟨e, mid, hle, he, h⟩ := h
    rw [Reading.yields_map_iff] at h
    obtain ⟨s, hs, rfl⟩ := h
    obtain ⟨rfl, hsemi⟩ := yields_expect_iff.mp hs
    obtain ⟨us, rfl, hus⟩ := read_sound he
    exact ⟨us, s, rfl, .some hus, hsemi⟩

theorem readCondition_sound {ts : List Token} {cond : Expr} {rest : List Token}
    (h : (readCondition ts).Yields cond rest) :
    ∃ o us c, ts = o :: (us ++ c :: rest) ∧ o.is .separator "(" = true ∧ SpellsExpr us cond ∧
      c.is .separator ")" = true := by
  rw [readCondition, Reading.yields_andThen_iff] at h
  obtain ⟨o, mid, hle, hopen, h⟩ := h
  rw [Reading.yields_andThen_iff] at h
  obtain ⟨e, mid', hle', he, h⟩ := h
  rw [Reading.yields_map_iff] at h
  obtain ⟨c, hclose, rfl⟩ := h
  obtain ⟨rfl, ho⟩ := yields_expect_iff.mp hopen
  obtain ⟨rfl, hc⟩ := yields_expect_iff.mp hclose
  obtain ⟨us, rfl, hus⟩ := read_sound he
  exact ⟨o, us, c, rfl, ho, hus, hc⟩

end Expr

/-- A declaration, with the `int` before the tokens read. -/
theorem Declaration.read_sound {k : Token} (hk : k.is .keyword "int" = true) {ts : List Token}
    {decl : Declaration} {rest : List Token} (h : (Declaration.read ts).Yields decl rest) :
    Took SpellsDeclaration (k :: ts) decl rest := by
  rw [Declaration.read, Reading.yields_andThen_iff] at h
  obtain ⟨x, mid, hle, hname, h⟩ := h
  rw [Reading.yields_andThen_iff] at h
  obtain ⟨init, mid', hle', hinit, h⟩ := h
  rw [Reading.yields_map_iff] at h
  obtain ⟨s, hs, rfl⟩ := h
  obtain ⟨rfl, hx⟩ := yields_expectKind_iff.mp hname
  obtain ⟨rfl, hsemi⟩ := yields_expect_iff.mp hs
  obtain ⟨us, rfl, hus⟩ := Expr.readInit_sound hinit
  exact ⟨k :: x :: (us ++ [s]), by simp, .mk hk hx hus hsemi⟩

/-- An assignment, with its target before the tokens read. -/
theorem Assignment.readTo_sound {x : Token} (hx : x.kind = .identifier) {ts : List Token}
    {a : Assignment} {rest : List Token} (h : (Assignment.readTo x.ident ts).Yields a rest) :
    Took SpellsAssignment (x :: ts) a rest := by
  rw [Assignment.readTo, Reading.yields_andThen_iff] at h
  obtain ⟨q, mid, hle, heq, h⟩ := h
  rw [Reading.yields_map_iff] at h
  obtain ⟨e, he, rfl⟩ := h
  obtain ⟨rfl, hq⟩ := yields_expect_iff.mp heq
  obtain ⟨us, rfl, hus⟩ := Expr.read_sound he
  exact ⟨x :: q :: us, rfl, .mk hx hq hus⟩

theorem Assignment.read_sound {ts : List Token} {a : Assignment} {rest : List Token}
    (h : (Assignment.read ts).Yields a rest) : Took SpellsAssignment ts a rest := by
  rw [Assignment.read, Reading.yields_andThen_iff] at h
  obtain ⟨x, mid, hle, hname, h⟩ := h
  obtain ⟨rfl, hx⟩ := yields_expectKind_iff.mp hname
  exact Assignment.readTo_sound hx h

theorem LoopHead.read_sound {ts : List Token} {head : LoopHead} {rest : List Token}
    (h : (LoopHead.read ts).Yields head rest) :
    ∃ o us vs s ws c, ts = o :: (us ++ vs ++ s :: (ws ++ c :: rest)) ∧
      o.is .separator "(" = true ∧ SpellsDeclaration us head.init ∧ SpellsExpr vs head.cond ∧
      s.is .separator ";" = true ∧ SpellsAssignment ws head.step ∧
      c.is .separator ")" = true := by
  rw [LoopHead.read, Reading.yields_andThen_iff] at h
  obtain ⟨o, m₁, h₁, hopen, h⟩ := h
  rw [Reading.yields_andThen_iff] at h
  obtain ⟨k, m₂, h₂, hint, h⟩ := h
  rw [Reading.yields_andThen_iff] at h
  obtain ⟨init, m₃, h₃, hinit, h⟩ := h
  rw [Reading.yields_andThen_iff] at h
  obtain ⟨cond, m₄, h₄, hcond, h⟩ := h
  rw [Reading.yields_andThen_iff] at h
  obtain ⟨s, m₅, h₅, hsemi, h⟩ := h
  rw [Reading.yields_andThen_iff] at h
  obtain ⟨step, m₆, h₆, hstep, h⟩ := h
  rw [Reading.yields_map_iff] at h
  obtain ⟨c, hclose, rfl⟩ := h
  obtain ⟨rfl, ho⟩ := yields_expect_iff.mp hopen
  obtain ⟨rfl, hk⟩ := yields_expect_iff.mp hint
  obtain ⟨us, hinput, hus⟩ := Declaration.read_sound hk hinit
  obtain ⟨vs, rfl, hvs⟩ := Expr.read_sound hcond
  obtain ⟨rfl, hs⟩ := yields_expect_iff.mp hsemi
  obtain ⟨ws, rfl, hws⟩ := Assignment.read_sound hstep
  obtain ⟨rfl, hc⟩ := yields_expect_iff.mp hclose
  refine ⟨o, us, vs, s, ws, c, ?_, ho, hus, hvs, hs, hws, hc⟩
  rw [hinput, List.append_assoc]

/-! ## 3. Statements -/

/-- The token can announce this statement. -/
def Opening.AnnouncedBy (t : Token) : Opening → Prop
  | .declaration => t.is .keyword "int" = true
  | .branch => t.is .keyword "if" = true
  | .loop => t.is .keyword "for" = true
  | .ret line => t.is .keyword "return" = true ∧ line = t.line
  | .call callee => IsCallee t ∧ callee = t.ident
  | .assignment target => t.kind = .identifier ∧ target = t.ident

theorem Opening.announcedBy_of_of? {t : Token} {ts : List Token} {opening : Opening}
    (h : Opening.of? t ts = some opening) : opening.AnnouncedBy t := by
  unfold Opening.of? at h
  split at h
  case isTrue ht => cases h; exact ht
  split at h
  case isTrue ht => cases h; exact ht
  split at h
  case isTrue ht => cases h; exact ht
  split at h
  case isTrue ht => cases h; exact ⟨ht, rfl⟩
  split at h
  case isTrue ht => cases h; exact ⟨.inr ht, rfl⟩
  split at h
  case isFalse => cases h
  case isTrue hkind =>
    split at h
    case isTrue => cases h; exact ⟨.inl hkind, rfl⟩
    split at h
    case isTrue => cases h; exact ⟨hkind, rfl⟩
    case isFalse => cases h

namespace Stmt

mutual

theorem readBlock_sound (ts : List Token) {stmts : Block} {rest : List Token}
    (h : (readBlock ts).Clean stmts rest) : Took SpellsBlock ts stmts rest := by
  rw [readBlock, Tolerant.clean_andThen_iff] at h
  obtain ⟨o, mid, hle, hopen, h⟩ := h
  obtain ⟨rfl, ho⟩ := yields_expect_iff.mp (Tolerant.clean_tolerant_iff.mp hopen)
  obtain ⟨us, c, rfl, hus, hc⟩ := readAll_sound mid h
  exact ⟨o :: (us ++ [c]), by simp, .mk ho hus hc⟩
termination_by (ts.length, 1)
decreasing_by all_goals subst_vars; simp only [List.length_cons]; omega

theorem readAll_sound (ts : List Token) {stmts : Block} {rest : List Token}
    (h : (readAll ts).Clean stmts rest) :
    ∃ us c, ts = us ++ c :: rest ∧ SpellsStmts us stmts ∧
      c.is .separator Token.closeBrace = true := by
  match ts with
  | [] =>
    rw [readAll, Tolerant.clean_tolerant_iff] at h
    exact absurd h Reading.not_yields_fail
  | t :: ts =>
    rw [readAll] at h
    split at h
    case isTrue ht =>
      rw [Tolerant.clean_tolerant_iff, Reading.yields_after_iff, Reading.yields_done_iff] at h
      obtain ⟨rfl, rfl⟩ := h
      exact ⟨[], t, rfl, .nil, ht⟩
    case isFalse =>
      split at h
      case h_1 => exact absurd h Tolerant.not_clean_noting
      case h_2 opening hopening =>
        rw [Tolerant.clean_after_iff, Tolerant.clean_follow_iff] at h
        obtain ⟨hfaults, h⟩ := h
        cases hresult : (readOpened opening ts).result with
        | error e =>
          simp only [hresult] at h
          exact absurd h Tolerant.not_clean_noting
        | ok stmt =>
          simp only [hresult, Tolerant.clean_map_iff] at h
          obtain ⟨later, hlater, rfl⟩ := h
          have hle := (readOpened opening ts).suffix.length_le
          obtain ⟨us, hts, hus⟩ :=
            readOpened_sound opening ts (Opening.announcedBy_of_of? hopening)
              ⟨⟨hresult, rfl⟩, hfaults⟩
          obtain ⟨vs, c, hrest, hvs, hc⟩ := readAll_sound _ hlater
          refine ⟨us ++ vs, c, ?_, .cons hus hvs, hc⟩
          rw [hts, hrest, List.append_assoc]
termination_by (ts.length, 0)
decreasing_by all_goals simp only [List.length_cons]; omega

/-- A statement, with the token that announced it before the tokens read. -/
theorem readOpened_sound {t : Token} (opening : Opening) (ts : List Token)
    (ht : opening.AnnouncedBy t) {stmt : Stmt} {rest : List Token}
    (h : (readOpened opening ts).Clean stmt rest) : Took SpellsStmt (t :: ts) stmt rest := by
  match opening with
  | .declaration =>
    rw [readOpened, Tolerant.clean_tolerant_iff, Reading.yields_map_iff] at h
    obtain ⟨decl, hdecl, rfl⟩ := h
    obtain ⟨us, hts, hus⟩ := Declaration.read_sound ht hdecl
    exact ⟨us, hts, .declare hus⟩
  | .ret line =>
    rw [readOpened, Tolerant.clean_tolerant_iff, Reading.yields_map_iff] at h
    obtain ⟨value, hvalue, rfl⟩ := h
    obtain ⟨hk, rfl⟩ := ht
    obtain ⟨us, s, rfl, hus, hs⟩ := Expr.readReturned_sound hvalue
    exact ⟨t :: (us ++ [s]), by simp, .ret hk hus hs⟩
  | .call callee =>
    rw [readOpened, Tolerant.clean_tolerant_iff, Reading.yields_andThen_iff] at h
    obtain ⟨args, mid, hle, hargs, h⟩ := h
    rw [Reading.yields_map_iff] at h
    obtain ⟨s, hsemi, rfl⟩ := h
    obtain ⟨hcallee, rfl⟩ := ht
    obtain ⟨rfl, hs⟩ := yields_expect_iff.mp hsemi
    obtain ⟨us, hts, hus⟩ := Expr.readArguments_sound t ts hcallee hargs
    exact ⟨us ++ [s], by rw [hts]; simp, .call hus hs⟩
  | .assignment target =>
    rw [readOpened, Tolerant.clean_tolerant_iff, Reading.yields_andThen_iff] at h
    obtain ⟨a, mid, hle, ha, h⟩ := h
    rw [Reading.yields_map_iff] at h
    obtain ⟨s, hsemi, rfl⟩ := h
    obtain ⟨hx, rfl⟩ := ht
    obtain ⟨rfl, hs⟩ := yields_expect_iff.mp hsemi
    obtain ⟨us, hts, hus⟩ := Assignment.readTo_sound hx ha
    exact ⟨us ++ [s], by rw [hts]; simp, .assign hus hs⟩
  | .branch =>
    rw [readOpened, Tolerant.clean_andThen_iff] at h
    obtain ⟨cond, mid, hle, hcond, h⟩ := h
    rw [Tolerant.clean_andThen_iff] at h
    obtain ⟨yes, mid', hle', hyes, h⟩ := h
    rw [Tolerant.clean_map_iff] at h
    obtain ⟨no, hno, rfl⟩ := h
    obtain ⟨o, us, c, rfl, ho, hus, hc⟩ :=
      Expr.readCondition_sound (Tolerant.clean_tolerant_iff.mp hcond)
    obtain ⟨vs, rfl, hvs⟩ := readBlock_sound mid hyes
    obtain ⟨ws, rfl, hws⟩ := readElse_sound mid' hno
    exact ⟨t :: o :: (us ++ c :: (vs ++ ws)), by simp, .branch ht ho hus hc hvs hws⟩
  | .loop =>
    rw [readOpened, Tolerant.clean_andThen_iff] at h
    obtain ⟨head, mid, hle, hhead, h⟩ := h
    rw [Tolerant.clean_map_iff] at h
    obtain ⟨body, hbody, rfl⟩ := h
    obtain ⟨o, us, vs, s, ws, c, rfl, ho, hus, hvs, hs, hws, hc⟩ :=
      LoopHead.read_sound (Tolerant.clean_tolerant_iff.mp hhead)
    obtain ⟨bs, rfl, hbs⟩ := readBlock_sound mid hbody
    exact ⟨t :: o :: (us ++ vs ++ s :: (ws ++ c :: bs)), by simp,
      .loop ht ho hus hvs hs hws hc hbs⟩
termination_by (ts.length, 3)
decreasing_by all_goals subst_vars; omega

theorem readElse_sound (ts : List Token) {no : Option Block} {rest : List Token}
    (h : (readElse ts).Clean no rest) : Took SpellsElse ts no rest := by
  match ts with
  | [] =>
    rw [readElse, Tolerant.clean_tolerant_iff, Reading.yields_done_iff] at h
    obtain ⟨rfl, rfl⟩ := h
    exact ⟨[], rfl, .none⟩
  | t :: ts =>
    rw [readElse] at h
    split at h
    case isTrue ht =>
      rw [Tolerant.clean_after_iff, Tolerant.clean_map_iff] at h
      obtain ⟨stmts, hstmts, rfl⟩ := h
      obtain ⟨us, rfl, hus⟩ := readBlock_sound ts hstmts
      exact ⟨t :: us, rfl, .some ht hus⟩
    case isFalse =>
      rw [Tolerant.clean_tolerant_iff, Reading.yields_done_iff] at h
      obtain ⟨rfl, rfl⟩ := h
      exact ⟨[], rfl, .none⟩
termination_by (ts.length, 2)
decreasing_by all_goals rw [List.length_cons]; omega

end

end Stmt

/-! ## 4. Programs -/

theorem TypeName.ofToken_eq_ok_iff {t : Token} {type : TypeName} :
    TypeName.ofToken t = .ok type ↔ SpellsType t type := by
  unfold TypeName.ofToken
  constructor
  · intro h
    split at h
    case isFalse => cases h
    case isTrue hkind =>
      split at h
      case isTrue htext =>
        cases h
        exact .int ((Token.is_iff t _ _).mpr ⟨hkind, htext⟩)
      case isFalse =>
        split at h
        case isTrue htext =>
          cases h
          exact .void ((Token.is_iff t _ _).mpr ⟨hkind, htext⟩)
        case isFalse => cases h
  · intro htype
    rcases htype with ht | ht
    · obtain ⟨hkind, htext⟩ := (Token.is_iff t _ _).mp ht
      rw [if_pos hkind, if_pos htext]
    · obtain ⟨hkind, htext⟩ := (Token.is_iff t _ _).mp ht
      rw [if_pos hkind, if_neg (by simp [htext]), if_pos htext]

/-- Parameters up to and including the closing parenthesis. -/
theorem Param.readSome_sound (ts : List Token) {params : List Param} {rest : List Token}
    (h : (Param.readSome ts).Yields params rest) :
    ∃ us c, ts = us ++ c :: rest ∧ SpellsParams us params ∧ c.is .separator ")" = true := by
  rw [Param.readSome, Reading.yields_andThen_iff] at h
  obtain ⟨k, mid, hle, hint, h⟩ := h
  rw [Reading.yields_andThen_iff] at h
  obtain ⟨x, mid', hle', hname, h⟩ := h
  obtain ⟨rfl, hk⟩ := yields_expect_iff.mp hint
  obtain ⟨rfl, hx⟩ := yields_expectKind_iff.mp hname
  cases mid' with
  | nil =>
    rw [Reading.yields_map_iff] at h
    obtain ⟨c, hclose, -⟩ := h
    cases (yields_expect_iff.mp hclose).1
  | cons t mid' =>
    simp only at h
    split at h
    case isTrue ht =>
      rw [Reading.yields_after_iff, Reading.yields_map_iff] at h
      obtain ⟨later, hlater, rfl⟩ := h
      obtain ⟨us, c, rfl, hus, hc⟩ := Param.readSome_sound mid' hlater
      exact ⟨k :: x :: t :: us, c, rfl, .cons hk hx ht hus, hc⟩
    case isFalse =>
      rw [Reading.yields_map_iff] at h
      obtain ⟨c, hclose, rfl⟩ := h
      obtain ⟨heq, hc⟩ := yields_expect_iff.mp hclose
      exact ⟨[k, x], c, by rw [heq]; rfl, .one hk hx, hc⟩
termination_by ts.length
decreasing_by subst_vars; simp only [List.length_cons]; omega

/-- A function, with its type before the tokens read. -/
theorem Function.read_sound {t : Token} {type : TypeName} (ht : SpellsType t type)
    {ts : List Token} {f : Function} {rest : List Token}
    (h : (Function.read type ts).Clean f rest) : Took SpellsFunction (t :: ts) f rest := by
  rw [Function.read, Tolerant.clean_andThen_iff] at h
  obtain ⟨x, mid, hle, hname, h⟩ := h
  rw [Tolerant.clean_andThen_iff] at h
  obtain ⟨params, mid', hle', hparams, h⟩ := h
  rw [Tolerant.clean_map_iff] at h
  obtain ⟨body, hbody, rfl⟩ := h
  obtain ⟨rfl, hx⟩ := yields_expectKind_iff.mp (Tolerant.clean_tolerant_iff.mp hname)
  obtain ⟨bs, rfl, hbs⟩ := Stmt.readBlock_sound mid' hbody
  rw [Tolerant.clean_tolerant_iff, Param.readList, Reading.yields_andThen_iff] at hparams
  obtain ⟨o, mid'', hle'', hopen, hparams⟩ := hparams
  obtain ⟨rfl, ho⟩ := yields_expect_iff.mp hopen
  split at hparams
  case isTrue =>
    rw [Reading.yields_map_iff] at hparams
    obtain ⟨c, hclose, rfl⟩ := hparams
    obtain ⟨rfl, hc⟩ := yields_expect_iff.mp hclose
    exact ⟨t :: x :: o :: c :: bs, rfl, .plain ht hx ho hc hbs⟩
  case isFalse =>
    obtain ⟨us, c, rfl, hus, hc⟩ := Param.readSome_sound mid'' hparams
    exact ⟨t :: x :: o :: (us ++ c :: bs), by simp, .params ht hx ho hus hc hbs⟩

/-- **A program read without a fault is spelled by its tokens.** -/
theorem Program.read_sound (ts : List Token) (h : (Program.read ts).faults = []) :
    SpellsProgram ts (Program.read ts).program := by
  match ts with
  | [] =>
    rw [Program.read]
    exact .nil
  | t :: ts =>
    rw [Program.read] at h ⊢
    cases htype : TypeName.ofToken t with
    | error e =>
      simp only [htype] at h
      cases h
    | ok type =>
      cases hresult : (Function.read type ts).result with
      | error e =>
        simp only [htype, hresult] at h
        simp at h
      | ok f =>
        simp only [htype, hresult, List.append_eq_nil_iff] at h ⊢
        have hle := (Function.read type ts).suffix.length_le
        obtain ⟨us, hts, hus⟩ :=
          Function.read_sound (TypeName.ofToken_eq_ok_iff.mp htype) ⟨⟨hresult, rfl⟩, h.1⟩
        rw [hts]
        exact .cons hus (Program.read_sound _ h.2)
termination_by ts.length
decreasing_by rw [List.length_cons]; omega

end MiniC
