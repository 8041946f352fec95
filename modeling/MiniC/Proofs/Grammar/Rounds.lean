import Mathlib
import MiniC.Proofs.Grammar.Calls

/-!
# The rounds of the readers

A loop of the grammar is a reader that comes back to itself for the next round, and a cycle is one
that comes back to itself through others. Here every reader that does so is unrolled by one round
(`Rounds`). What it is made of is said of the reader itself, and beside it stand the calls that are
listed for it, so that the list can be held against the readers on the right. Where a round is
followed by another, the other one has fewer tokens. The calls of the remaining readers, each of
which is one clause of the grammar, are listed too (`Clauses`).
-/

namespace MiniC

/-! ## 1. Calls after a reading -/

section Next

variable {α β : Type} {ts : List Token}

namespace Reading

/-- The calls that are made with what a reading leaves, if it succeeds. -/
def next (r : Reading ts α) (calls : List Token → List Call) : List Call :=
  match r.result with
  | .ok _ => calls r.rest
  | .error _ => []

theorem next_of_ok {r : Reading ts α} {value : α} (h : r.result = .ok value)
    (calls : List Token → List Call) : r.next calls = calls r.rest := by
  simp only [next, h]

theorem next_of_error {r : Reading ts α} {e : SyntaxError} (h : r.result = .error e)
    (calls : List Token → List Call) : r.next calls = [] := by
  simp only [next, h]

/-- What follows a token that is taken has the tokens behind it. -/
theorem andThen_taken (t : Token) (value : α)
    (next : α → (rest : List Token) → rest.length ≤ (t :: ts).length → Reading rest β) :
    ((Reading.done value).after t : Reading (t :: ts) α).andThen next =
      (next value ts (Nat.le_succ _)).after t := rfl

theorem next_taken (t : Token) (value : α) (calls : List Token → List Call) :
    ((Reading.done value).after t : Reading (t :: ts) α).next calls = calls ts := rfl

theorem mem_of_mem_next {r : Reading ts α} {calls : List Token → List Call} {c : Call}
    (h : c ∈ r.next calls) : c ∈ calls r.rest := by
  cases hresult : r.result with
  | ok value => rwa [next_of_ok hresult] at h
  | error e =>
    rw [next_of_error hresult] at h
    cases h

theorem next_nil (r : Reading ts α) : (r.next fun _ => []) = [] := by
  unfold next
  cases r.result <;> rfl

theorem next_forget (r : Reading ts α) (calls : List Token → List Call) :
    r.forget.next calls = r.next calls := by
  cases hresult : r.result with
  | ok value =>
    rw [next_of_ok hresult, next_of_ok (result_forget_of_ok hresult)]
    rfl
  | error e =>
    rw [next_of_error hresult, next_of_error (result_forget_of_error hresult)]

end Reading

namespace Logged

theorem calls_after (t : Token) (x : Logged ts) : (x.after t).calls = x.calls := rfl

theorem calls_andThen (x : Logged ts) (next : (rest : List Token) → Logged rest) :
    (x.andThen next).calls = x.calls ++ x.reading.next fun rest => (next rest).calls := by
  unfold andThen
  cases hresult : x.reading.result with
  | ok value => rw [Reading.next_of_ok hresult]
  | error e => rw [Reading.next_of_error hresult, List.append_nil]

/-- What follows tokens that are taken without a call. -/
theorem calls_quiet_andThen (r : Reading ts α) (next : (rest : List Token) → Logged rest) :
    ((quiet r).andThen next).calls = r.next fun rest => (next rest).calls := by
  have hreading : (quiet r).reading = r.forget := rfl
  rw [calls_andThen, hreading, Reading.next_forget]
  rfl

/-- What follows a call, when `r` is what the reader comes to. -/
theorem calls_call_andThen {n : Nonterminal} {r : Reading ts α} (h : n.read ts = r.forget)
    (next : (rest : List Token) → Logged rest) :
    ((call n ts).andThen next).calls = ⟨n, ts⟩ :: r.next fun rest => (next rest).calls := by
  have hreading : (call n ts).reading = r.forget := h
  rw [calls_andThen, hreading, Reading.next_forget]
  rfl

end Logged

end Next

namespace Nonterminal

theorem read_level (n : Nat) (ts : List Token) :
    (level n).read ts = (Expr.readLevel n ts).forget := rfl

/-- A separator after a call is taken without another. -/
theorem calls_call_separator (n : Nonterminal) (text : String) (ts : List Token) :
    ((Logged.call n ts).andThen (separator text)).calls = [⟨n, ts⟩] := by
  rw [Logged.calls_andThen]
  exact congrArg _ (Reading.next_nil _)

end Nonterminal

/-! ## 2. Rounds of expressions -/

namespace Expr

variable {t : Token} {us : List Token}

/-- A chain of operators goes on at an operator of its level. -/
theorem readChain_operator {op : BinaryOp} (h : t.binaryOp? = some op) (left : Expr)
    (us : List Token) :
    readChain op.level left (t :: us) =
      .after t ((readLevel op.level us).andThen fun right rest _ =>
        readChain op.level (.binary op left right) rest) := by
  rw [readChain]
  simp only [h, if_true]

/-- It stops at anything else. -/
theorem readChain_done {n : Nat} {ts : List Token}
    (h : ∀ t ∈ ts.head?, ∀ op, t.binaryOp? = some op → op.level ≠ n) (left : Expr) :
    readChain n left ts = .done left := by
  cases ts with
  | nil => rw [readChain]
  | cons t us =>
    rw [readChain]
    cases hop : t.binaryOp? with
    | none => rfl
    | some op => exact if_neg (h t rfl op hop)

theorem readPrimary_parenthesis (h : t.is .separator "(" = true) (us : List Token) :
    readPrimary t us =
      .after t ((Expr.read us).andThen fun e rest _ =>
        (expectSeparator ")" rest).map fun _ => e) := by
  obtain ⟨hkind, htext⟩ := (Token.is_iff t _ _).mp h
  simp only [readPrimary, hkind, htext, if_true]
  rfl

end Expr

namespace Call

open Logged Nonterminal

variable {t : Token} {us : List Token}

theorem calls_level (n : Nat) (ts : List Token) :
    calls ⟨.level (n + 1), ts⟩ =
      ⟨.level n, ts⟩ :: (Expr.readLevel n ts).next fun rest => [⟨.chain n, rest⟩] :=
  calls_call_andThen (read_level n ts) _

theorem calls_operator {op : BinaryOp} (h : t.binaryOp? = some op) (us : List Token) :
    calls ⟨.chain op.level, t :: us⟩ =
      ⟨.level op.level, us⟩ ::
        (Expr.readLevel op.level us).next fun rest => [⟨.chain op.level, rest⟩] := by
  simp only [calls, body, h, if_true]
  exact calls_call_andThen (read_level op.level us) _

theorem calls_chain_done {n : Nat} {ts : List Token}
    (h : ∀ t ∈ ts.head?, ∀ op, t.binaryOp? = some op → op.level ≠ n) :
    calls ⟨.chain n, ts⟩ = [] := by
  cases ts with
  | nil => rfl
  | cons t us =>
    simp only [calls, body]
    cases hop : t.binaryOp? with
    | none => rfl
    | some op =>
      simp only [if_neg (h t rfl op hop)]
      rfl

theorem calls_unary_operator {op : UnaryOp} (h : t.unaryOp? = some op) (us : List Token) :
    calls ⟨.unary, t :: us⟩ = [⟨.unary, us⟩] := by
  simp only [calls, body, h]
  rfl

theorem calls_unary_done (h : t.unaryOp? = none) (us : List Token) :
    calls ⟨.unary, t :: us⟩ = [⟨.primary, t :: us⟩] := by
  simp only [calls, body, h]
  rfl

theorem calls_parenthesis (h : t.is .separator "(" = true) (us : List Token) :
    calls ⟨.primary, t :: us⟩ = [⟨.level BinaryOp.levels, us⟩] := by
  obtain ⟨hkind, htext⟩ := (Token.is_iff t _ _).mp h
  simp only [calls, body, hkind, htext, if_true]
  exact calls_call_separator (.level BinaryOp.levels) ")" us

theorem calls_callee (h : IsCallee t) (hopen : startsWith .separator "(" us = true) :
    calls ⟨.primary, t :: us⟩ = [⟨.arguments, us⟩] := by
  rcases h with hkind | hprintf
  · simp only [calls, body, hkind, hopen, if_true]
    rfl
  · obtain ⟨hkind, htext⟩ := (Token.is_iff t _ _).mp hprintf
    simp only [calls, body, hkind, htext, hopen, decide_true, Bool.and_self, if_true]
    rfl

theorem calls_arguments (ts : List Token) :
    calls ⟨.arguments, ts⟩ =
      (expectSeparator "(" ts).next fun rest =>
        if startsWith .separator ")" rest then [] else [⟨.firstArgument, rest⟩] := by
  have hcalls := calls_quiet_andThen (expectSeparator "(" ts) fun rest =>
    if startsWith .separator ")" rest then Nonterminal.separator ")" rest
    else call .firstArgument rest
  refine Eq.trans hcalls (congrArg _ ?_)
  funext rest
  exact apply_ite Logged.calls _ _ _

theorem calls_firstArgument (ts : List Token) :
    calls ⟨.firstArgument, ts⟩ =
      ⟨.level BinaryOp.levels, ts⟩ :: (Expr.read ts).next fun rest => [⟨.moreArguments, rest⟩] :=
  calls_call_andThen rfl _

theorem calls_moreArguments (ts : List Token) :
    calls ⟨.moreArguments, ts⟩ =
      if startsWith .separator "," ts then [⟨.firstArgument, ts.tail⟩] else [] := by
  cases ts with
  | nil => rfl
  | cons t us =>
    rw [calls, body]
    exact apply_ite Logged.calls _ _ _

end Call

/-! ## 3. Rounds of parameters -/

theorem expectKind_of_kind {kind : Token.Kind} {t : Token} (h : t.kind = kind) (us : List Token) :
    expectKind kind (t :: us) = (Reading.done t).after t :=
  h ▸ expectKind_of_eq

section Params

variable {int name : Token}

/-- A comma after a parameter is followed by more parameters. -/
theorem Param.readSome_comma (hint : int.is .keyword "int" = true)
    (hname : name.kind = .identifier) {comma : Token} (hcomma : comma.is .separator "," = true)
    (us : List Token) :
    Param.readSome (int :: name :: comma :: us) =
      .after int (.after name (.after comma
        ((Param.readSome us).map (⟨.int, name.ident⟩ :: ·)))) := by
  rw [Param.readSome, expect_of_is hint, Reading.andThen_taken, expectKind_of_kind hname,
    Reading.andThen_taken]
  simp only [hcomma, if_true]

/-- Anything else is the end of the parameters. -/
theorem Param.readSome_done (hint : int.is .keyword "int" = true)
    (hname : name.kind = .identifier) {us : List Token} (h : startsWith .separator "," us = false) :
    Param.readSome (int :: name :: us) =
      .after int (.after name
        ((expectSeparator ")" us).map fun _ => [⟨.int, name.ident⟩])) := by
  rw [Param.readSome, expect_of_is hint, Reading.andThen_taken, expectKind_of_kind hname,
    Reading.andThen_taken]
  cases us with
  | nil => rfl
  | cons t us =>
    have ht : t.is .separator "," = false := h
    simp only [ht]
    rfl

theorem Call.calls_someParams (hint : int.is .keyword "int" = true)
    (hname : name.kind = .identifier) (us : List Token) :
    calls ⟨.someParams, int :: name :: us⟩ =
      if startsWith .separator "," us then [⟨.someParams, us.tail⟩] else [] := by
  refine (Logged.calls_quiet_andThen _ _).trans ?_
  rw [expect_of_is hint, Reading.next_taken]
  refine (Logged.calls_quiet_andThen _ _).trans ?_
  rw [expectKind_of_kind hname, Reading.next_taken]
  cases us with
  | nil => rfl
  | cons t us =>
    exact apply_ite Logged.calls _ _ _

end Params

/-! ## 4. Rounds of blocks and programs -/

/-- Where a block goes on after the statement at the front of `ts`. -/
def Stmt.resumption (ts : List Token) : List Token :=
  match (Stmt.read ts).result with
  | .ok _ => (Stmt.read ts).rest
  | .error _ => recover (Stmt.read ts).rest

section Blocks

variable {t : Token}

/-- **A round of a block takes a token**, also when its statement could not be read. -/
theorem Stmt.resumption_suffix (ht : t.is .separator Token.closeBrace = false) (us : List Token) :
    Stmt.resumption (t :: us) <:+ us := by
  unfold resumption
  cases hresult : (Stmt.read (t :: us)).result with
  | ok stmt => exact rest_read_suffix hresult
  | error e => exact recover_rest_read_suffix ht

/-- **The next round of a block decides what comes of the block**, but for the statement of this
    round, if it could be read. -/
theorem Stmt.readAll_statement (ht : t.is .separator Token.closeBrace = false) (us : List Token) :
    (readAll (t :: us)).result =
        (readAll (resumption (t :: us))).result.map
          ((Stmt.read (t :: us)).result.toOption.toList ++ ·) ∧
      (readAll (t :: us)).rest = (readAll (resumption (t :: us))).rest := by
  unfold resumption
  cases hresult : (Stmt.read (t :: us)).result with
  | ok stmt =>
    obtain ⟨hall, hrest, -⟩ := readAll_of_ok ht hresult
    exact ⟨hall, hrest⟩
  | error e =>
    obtain ⟨hall, hrest, -⟩ := readAll_of_error ht hresult
    refine ⟨hall.trans ?_, hrest⟩
    exact (congrFun Except.map_id _).symm

/-- A function takes its first token, also when it cannot be read. -/
theorem Function.rest_readTyped_suffix (t : Token) (us : List Token) :
    (readTyped (t :: us)).rest <:+ us := by
  rw [readTyped]
  cases TypeName.ofToken t with
  | error e => exact List.suffix_refl us
  | ok type => exact (read type us).suffix

namespace Call

open Logged Nonterminal

/-- **The next round of a block starts where the statement of this one leads.** -/
theorem calls_statements (ht : t.is .separator Token.closeBrace = false) (us : List Token) :
    calls ⟨.statements, t :: us⟩ =
      [⟨.statement, t :: us⟩, ⟨.statements, Stmt.resumption (t :: us)⟩] := by
  have hresult : (call .statement (t :: us)).reading.result =
      (Stmt.read (t :: us)).result.map fun _ => () := rfl
  rw [calls, body, if_neg (by simp [ht]), orRecover, Stmt.resumption]
  cases hread : (Stmt.read (t :: us)).result with
  | ok stmt =>
    rw [hread] at hresult
    simp only [hresult]
    rfl
  | error e =>
    rw [hread] at hresult
    simp only [hresult]
    rfl

theorem calls_closeBrace (ht : t.is .separator Token.closeBrace = true) (us : List Token) :
    calls ⟨.statements, t :: us⟩ = [] := by
  rw [calls, body, if_pos ht]
  rfl

theorem calls_block (ts : List Token) :
    calls ⟨.block, ts⟩ =
      (expectSeparator Token.openBrace ts).next fun rest => [⟨.statements, rest⟩] :=
  calls_quiet_andThen _ _

theorem calls_branch {us : List Token} (h : Opening.of? t us = some .branch) :
    calls ⟨.statement, t :: us⟩ =
      ⟨.condition, us⟩ :: (Expr.readCondition us).next fun rest =>
        ⟨.block, rest⟩ :: (Stmt.readBlock rest).toReading.next fun rest => [⟨.elseBlock, rest⟩] := by
  have hread : condition.read us = (Expr.readCondition us).forget := rfl
  simp only [calls, body, h]
  refine (calls_call_andThen hread _).trans ?_
  have hblock : ∀ rest, block.read rest = (Stmt.readBlock rest).toReading.forget := fun _ => rfl
  simp only [calls_call_andThen (hblock _)]
  rfl

theorem calls_loop {us : List Token} (h : Opening.of? t us = some .loop) :
    calls ⟨.statement, t :: us⟩ =
      ⟨.loopHead, us⟩ :: (LoopHead.read us).next fun rest => [⟨.block, rest⟩] := by
  have hread : loopHead.read us = (LoopHead.read us).forget := rfl
  simp only [calls, body, h]
  exact calls_call_andThen hread _

theorem calls_else (h : t.is .keyword "else" = true) (us : List Token) :
    calls ⟨.elseBlock, t :: us⟩ = [⟨.block, us⟩] := by
  rw [calls, body, if_pos h]
  rfl

theorem calls_program (t : Token) (us : List Token) :
    calls ⟨.program, t :: us⟩ =
      ⟨.function, t :: us⟩ ::
        (Function.readTyped (t :: us)).next fun rest => [⟨.program, rest⟩] := by
  have hread : function.read (t :: us) = (Function.readTyped (t :: us)).forget := rfl
  exact calls_call_andThen hread _

end Call

end Blocks

/-! ## 5. The other readers -/

/-- **The calls of the readers that do not come back to themselves**, and of the rounds that lead no
    further. -/
structure Clauses : Prop where
  init : ∀ ts, Call.calls ⟨.init, ts⟩ =
    if startsWith .operator "=" ts then [⟨.level BinaryOp.levels, ts.tail⟩] else []
  declaration : ∀ ts, Call.calls ⟨.declaration, ts⟩ =
    (expectKind .identifier ts).next fun rest => [⟨.init, rest⟩]
  value : ∀ ts, Call.calls ⟨.value, ts⟩ =
    (expect .operator "=" ts).next fun rest => [⟨.level BinaryOp.levels, rest⟩]
  assignment : ∀ ts, Call.calls ⟨.assignment, ts⟩ =
    (expectKind .identifier ts).next fun rest => [⟨.value, rest⟩]
  returned : ∀ ts, Call.calls ⟨.returned, ts⟩ =
    if startsWith .separator ";" ts then [] else [⟨.level BinaryOp.levels, ts⟩]
  condition : ∀ ts, Call.calls ⟨.condition, ts⟩ =
    (expectSeparator "(" ts).next fun rest => [⟨.level BinaryOp.levels, rest⟩]
  loopHead : ∀ ts, Call.calls ⟨.loopHead, ts⟩ =
    (expectSeparator "(" ts).next fun rest => (expect .keyword "int" rest).next fun rest =>
      ⟨.declaration, rest⟩ :: (Declaration.read rest).next fun rest =>
        ⟨.level BinaryOp.levels, rest⟩ :: (Expr.read rest).next fun rest =>
          (expectSeparator ";" rest).next fun rest => [⟨.assignment, rest⟩]
  leaf : ∀ {t us}, t.is .separator "(" = false →
    ¬ (IsCallee t ∧ startsWith .separator "(" us = true) → Call.calls ⟨.primary, t :: us⟩ = []
  noStatement : ∀ {t us}, Opening.of? t us = none → Call.calls ⟨.statement, t :: us⟩ = []
  opensDeclaration : ∀ {t us}, Opening.of? t us = some .declaration →
    Call.calls ⟨.statement, t :: us⟩ = [⟨.declaration, us⟩]
  opensReturn : ∀ {t us line}, Opening.of? t us = some (.ret line) →
    Call.calls ⟨.statement, t :: us⟩ = [⟨.returned, us⟩]
  opensCall : ∀ {t us callee}, Opening.of? t us = some (.call callee) →
    Call.calls ⟨.statement, t :: us⟩ = [⟨.arguments, us⟩]
  opensAssignment : ∀ {t us target}, Opening.of? t us = some (.assignment target) →
    Call.calls ⟨.statement, t :: us⟩ = [⟨.value, us⟩]
  noElse : ∀ {ts}, startsWith .keyword "else" ts = false → Call.calls ⟨.elseBlock, ts⟩ = []
  params : ∀ ts, Call.calls ⟨.params, ts⟩ =
    (expectSeparator "(" ts).next fun rest =>
      if startsWith .separator ")" rest then [] else [⟨.someParams, rest⟩]
  function : ∀ {t type}, TypeName.ofToken t = .ok type → ∀ us, Call.calls ⟨.function, t :: us⟩ =
    (expectKind .identifier us).next fun rest =>
      ⟨.params, rest⟩ :: (Param.readList rest).next fun rest => [⟨.block, rest⟩]

section Clauses

open Logged Nonterminal

theorem Call.calls_leaf {t : Token} {us : List Token} (hparenthesis : t.is .separator "(" = false)
    (hcall : ¬ (IsCallee t ∧ startsWith .separator "(" us = true)) :
    calls ⟨.primary, t :: us⟩ = [] := by
  rw [calls, body]
  cases hkind : t.kind with
  | float | integer | string | operator | mismatch => rfl
  | identifier =>
    have hopen : ¬ startsWith .separator "(" us = true := fun h => hcall ⟨.inl hkind, h⟩
    simp only [if_neg hopen]
    rfl
  | keyword =>
    have hopen : ¬ (t.text = "printf" && startsWith .separator "(" us) = true := by
      intro h
      obtain ⟨htext, hopen⟩ := Bool.and_eq_true_iff.mp h
      have hprintf := (Token.is_iff t _ _).mpr ⟨hkind, of_decide_eq_true htext⟩
      exact hcall ⟨.inr hprintf, hopen⟩
    simp only [if_neg hopen]
    rfl
  | separator =>
    have htext : ¬ t.text = "(" := fun h =>
      Bool.eq_false_iff.mp hparenthesis ((Token.is_iff t _ _).mpr ⟨hkind, h⟩)
    simp only [if_neg htext]
    rfl

theorem Call.calls_loopHead (ts : List Token) :
    calls ⟨.loopHead, ts⟩ =
      (expectSeparator "(" ts).next fun rest => (expect .keyword "int" rest).next fun rest =>
        ⟨.declaration, rest⟩ :: (Declaration.read rest).next fun rest =>
          ⟨.level BinaryOp.levels, rest⟩ :: (Expr.read rest).next fun rest =>
            (expectSeparator ";" rest).next fun rest => [⟨.assignment, rest⟩] := by
  have hread : ∀ us, declaration.read us = (Declaration.read us).forget := fun _ => rfl
  have hlevel : ∀ us, (level BinaryOp.levels).read us = (Expr.read us).forget := fun _ => rfl
  refine (calls_quiet_andThen _ _).trans (congrArg _ (funext fun rest => ?_))
  refine (calls_quiet_andThen _ _).trans (congrArg _ (funext fun rest => ?_))
  refine (calls_call_andThen (hread rest) _).trans ?_
  refine congrArg (_ :: ·) (congrArg _ (funext fun rest => ?_))
  refine (calls_call_andThen (hlevel rest) _).trans ?_
  refine congrArg (_ :: ·) (congrArg _ (funext fun rest => ?_))
  refine (calls_quiet_andThen _ _).trans (congrArg _ (funext fun rest => ?_))
  exact calls_call_separator .assignment ")" rest

theorem Call.calls_function {t : Token} {type : TypeName} (h : TypeName.ofToken t = .ok type)
    (us : List Token) :
    calls ⟨.function, t :: us⟩ =
      (expectKind .identifier us).next fun rest =>
        ⟨.params, rest⟩ :: (Param.readList rest).next fun rest => [⟨.block, rest⟩] := by
  have hread : ∀ us, params.read us = (Param.readList us).forget := fun _ => rfl
  simp only [calls, body, h, calls_after]
  refine (calls_quiet_andThen _ _).trans (congrArg _ (funext fun rest => ?_))
  exact calls_call_andThen (hread rest) _

theorem clauses : Clauses where
  init ts := by
    cases ts with
    | nil => rfl
    | cons t us => exact apply_ite Logged.calls _ _ _
  declaration ts := by
    refine (calls_quiet_andThen _ _).trans (congrArg _ (funext fun rest => ?_))
    exact calls_call_separator .init ";" rest
  value ts := calls_quiet_andThen _ _
  assignment ts := calls_quiet_andThen _ _
  returned ts := by
    refine (apply_ite Logged.calls _ _ _).trans ?_
    rw [calls_call_separator]
    rfl
  condition ts := by
    refine (calls_quiet_andThen _ _).trans (congrArg _ (funext fun rest => ?_))
    exact calls_call_separator (.level BinaryOp.levels) ")" rest
  loopHead ts := Call.calls_loopHead ts
  leaf hparenthesis hcall := Call.calls_leaf hparenthesis hcall
  noStatement h := by
    simp only [Call.calls, body, h]
    rfl
  opensDeclaration h := by
    simp only [Call.calls, body, h]
    rfl
  opensReturn h := by
    simp only [Call.calls, body, h]
    rfl
  opensCall h := by
    simp only [Call.calls, body, h, calls_after]
    exact calls_call_separator .arguments ";" _
  opensAssignment h := by
    simp only [Call.calls, body, h, calls_after]
    exact calls_call_separator .value ";" _
  noElse {ts} h := by
    cases ts with
    | nil => rfl
    | cons t us =>
      have ht : t.is .keyword "else" = false := h
      rw [Call.calls, body, if_neg (Bool.eq_false_iff.mp ht)]
      rfl
  params ts := by
    refine (calls_quiet_andThen _ _).trans (congrArg _ (funext fun rest => ?_))
    exact apply_ite Logged.calls _ _ _
  function h us := Call.calls_function h us

end Clauses

/-! ## 6. Unrolled once -/

/-- **The readers that come back to themselves, each unrolled by one round.** An equation says what
    the reader is made of, and the next one lists the calls that are made for that. Where a round is
    followed by another round of the same loop, the last part says that the other one has fewer
    tokens. -/
structure Rounds : Prop where
  /-- Below the tightest operators stands a unary expression. -/
  tightest : ∀ ts, Expr.readLevel 0 ts = Expr.readUnary ts ∧
    Call.calls ⟨.level 0, ts⟩ = [⟨.unary, ts⟩]
  /-- A chain of operators is an operand and the loop over the operators after it. -/
  level : ∀ n ts,
    Expr.readLevel (n + 1) ts =
      (Expr.readLevel n ts).andThen (fun left rest _ => Expr.readChain n left rest) ∧
    Call.calls ⟨.level (n + 1), ts⟩ =
      ⟨.level n, ts⟩ :: (Expr.readLevel n ts).next fun rest => [⟨.chain n, rest⟩]
  /-- **A round of operators**: an operator of the level, an operand, and the next round. -/
  operator : ∀ {t op}, t.binaryOp? = some op → ∀ left us,
    Expr.readChain op.level left (t :: us) =
      .after t ((Expr.readLevel op.level us).andThen fun right rest _ =>
        Expr.readChain op.level (.binary op left right) rest) ∧
    Call.calls ⟨.chain op.level, t :: us⟩ =
      ⟨.level op.level, us⟩ ::
        ((Expr.readLevel op.level us).next fun rest => [⟨.chain op.level, rest⟩]) ∧
    (Expr.readLevel op.level us).rest.length < (t :: us).length
  /-- The loop over the operators ends at anything else. -/
  lastOperand : ∀ {n ts}, (∀ t ∈ ts.head?, ∀ op, t.binaryOp? = some op → op.level ≠ n) → ∀ left,
    Expr.readChain n left ts = .done left ∧ Call.calls ⟨.chain n, ts⟩ = []
  /-- A unary operator is followed by a unary expression. -/
  sign : ∀ {t op}, t.unaryOp? = some op → ∀ us,
    Expr.readUnary (t :: us) = .after t ((Expr.readUnary us).map (.unary op)) ∧
    Call.calls ⟨.unary, t :: us⟩ = [⟨.unary, us⟩] ∧ us.length < (t :: us).length
  lastSign : ∀ {t}, t.unaryOp? = none → ∀ us,
    Expr.readUnary (t :: us) = Expr.readPrimary t us ∧
    Call.calls ⟨.unary, t :: us⟩ = [⟨.primary, t :: us⟩]
  /-- A parenthesis is followed by a whole expression. -/
  parenthesis : ∀ {t}, t.is .separator "(" = true → ∀ us,
    Expr.readPrimary t us =
      .after t ((Expr.read us).andThen fun e rest _ =>
        (expectSeparator ")" rest).map fun _ => e) ∧
    Call.calls ⟨.primary, t :: us⟩ = [⟨.level BinaryOp.levels, us⟩]
  /-- The name of a function is followed by its arguments. -/
  callee : ∀ {t us}, IsCallee t → startsWith .separator "(" us = true →
    Expr.readPrimary t us = .after t ((Expr.readArguments us).map (.call t.ident)) ∧
    Call.calls ⟨.primary, t :: us⟩ = [⟨.arguments, us⟩]
  arguments : ∀ ts,
    Expr.readArguments ts =
      (expectSeparator "(" ts).andThen (fun _ rest _ =>
        if startsWith .separator ")" rest then (expectSeparator ")" rest).map fun _ => []
        else Expr.readFirstArgument rest) ∧
    Call.calls ⟨.arguments, ts⟩ =
      (expectSeparator "(" ts).next fun rest =>
        if startsWith .separator ")" rest then [] else [⟨.firstArgument, rest⟩]
  /-- An argument is followed by the loop over the arguments after it. -/
  argument : ∀ ts,
    Expr.readFirstArgument ts =
      (Expr.read ts).andThen (fun arg rest _ => (Expr.readMoreArguments rest).map (arg :: ·)) ∧
    Call.calls ⟨.firstArgument, ts⟩ =
      ⟨.level BinaryOp.levels, ts⟩ :: (Expr.read ts).next fun rest => [⟨.moreArguments, rest⟩]
  /-- **A round of arguments**: a comma, an argument, and the next round, which starts where the
      argument ends. -/
  comma : ∀ {t}, t.is .separator "," = true → ∀ us,
    Expr.readMoreArguments (t :: us) = .after t (Expr.readFirstArgument us) ∧
    Call.calls ⟨.moreArguments, t :: us⟩ = [⟨.firstArgument, us⟩] ∧
    (Expr.read us).rest.length < (t :: us).length
  lastArgument : ∀ {ts}, startsWith .separator "," ts = false →
    Expr.readMoreArguments ts = (expectSeparator ")" ts).map (fun _ => []) ∧
    Call.calls ⟨.moreArguments, ts⟩ = []
  /-- **A round of parameters**: a parameter, a comma, and the next round. -/
  parameter : ∀ {int name comma : Token}, int.is .keyword "int" = true →
    name.kind = .identifier → comma.is .separator "," = true → ∀ us,
    Param.readSome (int :: name :: comma :: us) =
      .after int (.after name (.after comma
        ((Param.readSome us).map (⟨.int, name.ident⟩ :: ·)))) ∧
    Call.calls ⟨.someParams, int :: name :: comma :: us⟩ = [⟨.someParams, us⟩] ∧
    us.length < (int :: name :: comma :: us).length
  lastParameter : ∀ {int name : Token} {us}, int.is .keyword "int" = true →
    name.kind = .identifier → startsWith .separator "," us = false →
    Param.readSome (int :: name :: us) =
      .after int (.after name ((expectSeparator ")" us).map fun _ => [⟨.int, name.ident⟩])) ∧
    Call.calls ⟨.someParams, int :: name :: us⟩ = []
  /-- A block is an opening brace and the loop over its statements. -/
  block : ∀ ts,
    Stmt.readBlock ts =
      (expectSeparator Token.openBrace ts).tolerant.andThen (fun _ rest _ => Stmt.readAll rest) ∧
    Call.calls ⟨.block, ts⟩ =
      (expectSeparator Token.openBrace ts).next fun rest => [⟨.statements, rest⟩]
  /-- **A round of a block**: a statement, and the next round, whether or not the statement could be
      read and whether or not it took a token. -/
  statement : ∀ {t}, t.is .separator Token.closeBrace = false → ∀ us,
    (Stmt.readAll (t :: us)).result =
      (Stmt.readAll (Stmt.resumption (t :: us))).result.map
        ((Stmt.read (t :: us)).result.toOption.toList ++ ·) ∧
    (Stmt.readAll (t :: us)).rest = (Stmt.readAll (Stmt.resumption (t :: us))).rest ∧
    Call.calls ⟨.statements, t :: us⟩ =
      [⟨.statement, t :: us⟩, ⟨.statements, Stmt.resumption (t :: us)⟩] ∧
    Stmt.resumption (t :: us) <:+ us ∧ (Stmt.resumption (t :: us)).length < (t :: us).length
  closeBrace : ∀ {t}, t.is .separator Token.closeBrace = true → ∀ us,
    Stmt.readAll (t :: us) = Reading.tolerant (.after t (.done [])) ∧
    Call.calls ⟨.statements, t :: us⟩ = []
  /-- The blocks in a statement are an `if` with its `else`, and a `for`. -/
  branch : ∀ {t us}, Opening.of? t us = some .branch →
    Stmt.read (t :: us) =
      .after t ((Expr.readCondition us).tolerant.andThen fun cond rest _ =>
        (Stmt.readBlock rest).andThen fun yes rest _ =>
          (Stmt.readElse rest).map fun no => .branch cond yes no) ∧
    Call.calls ⟨.statement, t :: us⟩ =
      ⟨.condition, us⟩ :: (Expr.readCondition us).next fun rest =>
        ⟨.block, rest⟩ :: (Stmt.readBlock rest).toReading.next fun rest => [⟨.elseBlock, rest⟩]
  elseBlock : ∀ {t}, t.is .keyword "else" = true → ∀ us,
    Stmt.readElse (t :: us) = .after t ((Stmt.readBlock us).map some) ∧
    Call.calls ⟨.elseBlock, t :: us⟩ = [⟨.block, us⟩]
  loop : ∀ {t us}, Opening.of? t us = some .loop →
    Stmt.read (t :: us) =
      .after t ((LoopHead.read us).tolerant.andThen fun head rest _ =>
        (Stmt.readBlock rest).map fun body => .loop head.init head.cond head.step body) ∧
    Call.calls ⟨.statement, t :: us⟩ =
      ⟨.loopHead, us⟩ :: (LoopHead.read us).next fun rest => [⟨.block, rest⟩]
  /-- **A round of a program**: a function, and the next round if it could be read. -/
  function : ∀ t us,
    (Program.read (t :: us)).rest =
      (match (Function.readTyped (t :: us)).result with
        | .error _ => (Function.readTyped (t :: us)).rest
        | .ok _ => (Program.read (Function.readTyped (t :: us)).rest).rest) ∧
    Call.calls ⟨.program, t :: us⟩ =
      ⟨.function, t :: us⟩ ::
        ((Function.readTyped (t :: us)).next fun rest => [⟨.program, rest⟩]) ∧
    (Function.readTyped (t :: us)).rest.length < (t :: us).length

theorem length_lt_of_suffix {us rest : List Token} (h : rest <:+ us) (t : Token) :
    rest.length < (t :: us).length :=
  Nat.lt_succ_of_le h.length_le

theorem rounds : Rounds where
  tightest ts := ⟨by rw [Expr.readLevel], rfl⟩
  level n ts := ⟨by rw [Expr.readLevel], Call.calls_level n ts⟩
  operator h left us := ⟨Expr.readChain_operator h left us, Call.calls_operator h us,
    length_lt_of_suffix (Reading.suffix _) _⟩
  lastOperand h left := ⟨Expr.readChain_done h left, Call.calls_chain_done h⟩
  sign {t op} h us := by
    refine ⟨?_, Call.calls_unary_operator h us, Nat.lt_succ_self _⟩
    rw [Expr.readUnary]
    simp only [h]
  lastSign {t} h us := by
    refine ⟨?_, Call.calls_unary_done h us⟩
    rw [Expr.readUnary]
    simp only [h]
  parenthesis h us := ⟨Expr.readPrimary_parenthesis h us, Call.calls_parenthesis h us⟩
  callee h hopen := ⟨Expr.readPrimary_call h hopen, Call.calls_callee h hopen⟩
  arguments ts := ⟨by rw [Expr.readArguments], Call.calls_arguments ts⟩
  argument ts := ⟨by rw [Expr.readFirstArgument]; rfl, Call.calls_firstArgument ts⟩
  comma {t} h us := by
    have hstarts : startsWith .separator "," (t :: us) = true := h
    refine ⟨?_, ?_, length_lt_of_suffix (Reading.suffix _) _⟩
    · rw [Expr.readMoreArguments, if_pos h]
    · rw [Call.calls_moreArguments, if_pos hstarts]
      rfl
  lastArgument {ts} h := by
    refine ⟨?_, ?_⟩
    · cases ts with
      | nil => rw [Expr.readMoreArguments]
      | cons t us =>
        have ht : t.is .separator "," = false := h
        rw [Expr.readMoreArguments, if_neg (Bool.eq_false_iff.mp ht)]
    · rw [Call.calls_moreArguments, if_neg (Bool.eq_false_iff.mp h)]
  parameter {int name comma} hint hname hcomma us := by
    have hstarts : startsWith .separator "," (comma :: us) = true := hcomma
    refine ⟨Param.readSome_comma hint hname hcomma us, ?_, ?_⟩
    · rw [Call.calls_someParams hint hname, if_pos hstarts]
      rfl
    · exact length_lt_of_suffix ((List.suffix_cons _ _).trans (List.suffix_cons _ _)) _
  lastParameter hint hname h := by
    refine ⟨Param.readSome_done hint hname h, ?_⟩
    rw [Call.calls_someParams hint hname, if_neg (Bool.eq_false_iff.mp h)]
  block ts := ⟨by rw [Stmt.readBlock], Call.calls_block ts⟩
  statement ht us := by
    obtain ⟨hresult, hrest⟩ := Stmt.readAll_statement ht us
    have hsuffix := Stmt.resumption_suffix ht us
    exact ⟨hresult, hrest, Call.calls_statements ht us, hsuffix, length_lt_of_suffix hsuffix _⟩
  closeBrace ht us := ⟨by rw [Stmt.readAll, dif_pos ht], Call.calls_closeBrace ht us⟩
  branch h := ⟨by rw [Stmt.read_of_some h, Stmt.readOpened], Call.calls_branch h⟩
  elseBlock h us := ⟨by rw [Stmt.readElse, if_pos h], Call.calls_else h us⟩
  loop h := ⟨by rw [Stmt.read_of_some h, Stmt.readOpened], Call.calls_loop h⟩
  function t us := ⟨Program.rest_read_cons t us, Call.calls_program t us,
    length_lt_of_suffix (Function.rest_readTyped_suffix t us) _⟩

end MiniC
