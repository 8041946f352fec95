import Mathlib
import MiniC.Proofs.Grammar.Extension

/-!
# Which reader calls which

The readers of the grammar call each other, and a loop of the grammar is a reader that calls itself
for the next round. Here each reader is a nonterminal, and what it does with its tokens is written
down once more without the trees, as the tokens it takes itself and the readers it calls one after
the other (`Nonterminal.body`). Doing that gives the same success or error and leaves the same
tokens as the reader (`Nonterminal.reading_body`).

Equal outcomes alone do not tell which readers were called on the way. That the calls listed here
(`Call.Calls`) are those a reader is made of is said reader by reader, for all that come back to
themselves, in the module on their rounds.
-/

namespace MiniC

/-! ## 1. Readings without their values -/

section Forget

variable {α β : Type} {ts us : List Token}

namespace Reading

theorem eq_of_result_rest {r r' : Reading ts α} (hresult : r.result = r'.result)
    (hrest : r.rest = r'.rest) : r = r' := by
  cases r
  cases r'
  cases hresult
  cases hrest
  rfl

/-- Whether the reading succeeded and what it left, without the value that was read. -/
def forget (r : Reading ts α) : Reading ts Unit := r.map fun _ => ()

theorem result_forget_of_ok {r : Reading ts α} {value : α} (h : r.result = .ok value) :
    r.forget.result = .ok () := by
  rw [forget, result_map, h]
  rfl

theorem result_forget_of_error {r : Reading ts α} {e : SyntaxError} (h : r.result = .error e) :
    r.forget.result = .error e := by
  rw [forget, result_map, h]
  rfl

theorem forget_map (r : Reading ts α) (f : α → β) : (r.map f).forget = r.forget := by
  refine eq_of_result_rest ?_ rfl
  show (r.result.map f).map _ = r.result.map _
  cases r.result <;> rfl

theorem forget_after (t : Token) (r : Reading ts α) : (r.after t).forget = r.forget.after t := rfl

theorem forget_andThen (r : Reading ts α)
    {next : α → (rest : List Token) → rest.length ≤ ts.length → Reading rest β}
    (next' : (rest : List Token) → Reading rest Unit)
    (h : ∀ value rest hle, (next value rest hle).forget = next' rest) :
    (r.andThen next).forget = r.forget.andThen fun _ rest _ => next' rest := by
  cases hresult : r.result with
  | error e =>
    rw [andThen_of_error hresult, andThen_of_error (result_forget_of_error hresult)]
    rfl
  | ok value =>
    rw [andThen_of_ok hresult, andThen_of_ok (result_forget_of_ok hresult)]
    have hnext := h value r.rest r.suffix.length_le
    have hresult' := congrArg Reading.result hnext
    have hrest' := congrArg Reading.rest hnext
    exact eq_of_result_rest hresult' hrest'

end Reading

theorem Tolerant.toReading_andThen (r : Tolerant ts α)
    (next : α → (rest : List Token) → rest.length ≤ ts.length → Tolerant rest β) :
    (r.andThen next).toReading =
      r.toReading.andThen fun value rest hle => (next value rest hle).toReading := by
  cases hresult : r.result with
  | error e => rw [(andThen_of_error hresult next).1, Reading.andThen_of_error hresult]
  | ok value => rw [(andThen_of_ok hresult next).1, Reading.andThen_of_ok hresult]

end Forget

/-! ## 2. Readers and calls -/

/-- The readers of the grammar. -/
inductive Nonterminal where
  /-- A chain of operators below a level. -/
  | level (n : Nat)
  /-- The rest of a chain of operators of a level. -/
  | chain (n : Nat)
  | unary
  | primary
  | arguments
  | firstArgument
  | moreArguments
  | init
  | declaration
  /-- An assignment from its `=` on. -/
  | value
  | assignment
  | returned
  | condition
  | loopHead
  | block
  /-- The statements of a block up to its closing brace. -/
  | statements
  | statement
  | elseBlock
  | someParams
  | params
  | function
  | program
  deriving DecidableEq, Repr

theorem Program.rest_read_suffix (ts : List Token) : (Program.read ts).rest <:+ ts := by
  fun_induction Program.read ts with
  | case1 => exact List.suffix_refl []
  | case2 t ts e htype => exact List.suffix_cons t ts
  | case3 t ts type htype function e hresult =>
    exact function.suffix.trans (List.suffix_cons t ts)
  | case4 t ts type htype function value hresult later ih =>
    exact ih.trans (function.suffix.trans (List.suffix_cons t ts))

/-- A function with its return type. -/
def Function.readTyped : (ts : List Token) → Reading ts Function
  | [] => .fail (.kind .keyword)
  | t :: ts =>
    match TypeName.ofToken t with
    | .error e => ⟨.error e, ts, List.suffix_cons t ts⟩
    | .ok type => (Function.read type ts).toReading.after t

/-- A program is read function by function, up to the end or to a function that cannot be read. -/
theorem Program.rest_read_cons (t : Token) (ts : List Token) :
    (read (t :: ts)).rest = match (Function.readTyped (t :: ts)).result with
      | .error _ => (Function.readTyped (t :: ts)).rest
      | .ok _ => (read (Function.readTyped (t :: ts)).rest).rest := by
  cases htype : TypeName.ofToken t with
  | error e => simp only [read_of_type_error htype, Function.readTyped, htype]
  | ok type =>
    cases hresult : (Function.read type ts).result with
    | error e =>
      simp only [read_of_error htype hresult, Function.readTyped, htype, Reading.result_after,
        Reading.rest_after, hresult]
    | ok f =>
      simp only [read_of_ok htype hresult, Function.readTyped, htype, Reading.result_after,
        Reading.rest_after, hresult]

namespace Nonterminal

/-- What the reader of a nonterminal does with its tokens. What was read before, the left operand of
    a chain or the target of an assignment, has no part in it. -/
def read : Nonterminal → (ts : List Token) → Reading ts Unit
  | .level n, ts => (Expr.readLevel n ts).forget
  | .chain n, ts => (Expr.readChain n (.string "") ts).forget
  | .unary, ts => (Expr.readUnary ts).forget
  | .primary, [] => .fail .expression
  | .primary, t :: ts => (Expr.readPrimary t ts).forget
  | .arguments, ts => (Expr.readArguments ts).forget
  | .firstArgument, ts => (Expr.readFirstArgument ts).forget
  | .moreArguments, ts => (Expr.readMoreArguments ts).forget
  | .init, ts => (Expr.readInit ts).forget
  | .declaration, ts => (Declaration.read ts).forget
  | .value, ts => (Assignment.readTo ⟨"", 0⟩ ts).forget
  | .assignment, ts => (Assignment.read ts).forget
  | .returned, ts => (Expr.readReturned ts).forget
  | .condition, ts => (Expr.readCondition ts).forget
  | .loopHead, ts => (LoopHead.read ts).forget
  | .block, ts => (Stmt.readBlock ts).toReading.forget
  | .statements, ts => (Stmt.readAll ts).toReading.forget
  | .statement, ts => (Stmt.read ts).toReading.forget
  | .elseBlock, ts => (Stmt.readElse ts).toReading.forget
  | .someParams, ts => (Param.readSome ts).forget
  | .params, ts => (Param.readList ts).forget
  | .function, ts => (Function.readTyped ts).forget
  | .program, ts => ⟨.ok (), (Program.read ts).rest, Program.rest_read_suffix ts⟩

end Nonterminal

/-- A reader at work on its tokens. -/
structure Call where
  nonterminal : Nonterminal
  tokens : List Token
  deriving DecidableEq, Repr

/-- What the call leaves. -/
def Call.rest (c : Call) : List Token := (c.nonterminal.read c.tokens).rest

/-! ## 3. What a reader does -/

/-- **From `ts` to `rest` with these calls on the way**: each starts where the one before it stopped
    or later, so the tokens that were passed are never come back to. -/
inductive Walk : (ts : List Token) → (calls : List Call) → (rest : List Token) → Prop where
  | stop {ts rest : List Token} (passed : rest <:+ ts) : Walk ts [] rest
  | call {ts rest : List Token} {c : Call} {calls : List Call} (passed : c.tokens <:+ ts)
      (next : Walk c.rest calls rest) : Walk ts (c :: calls) rest

namespace Walk

variable {ts us rest : List Token} {calls later : List Call}

theorem of_suffix (h : Walk us calls rest) (hs : us <:+ ts) : Walk ts calls rest := by
  cases h with
  | stop passed => exact .stop (passed.trans hs)
  | call passed next => exact .call (passed.trans hs) next

theorem append (h : Walk ts calls us) (h' : Walk us later rest) : Walk ts (calls ++ later) rest := by
  induction h with
  | stop passed => exact h'.of_suffix passed
  | call passed _ ih => exact .call passed (ih h')

theorem tokens_suffix (h : Walk ts calls rest) {c : Call} (hc : c ∈ calls) : c.tokens <:+ ts := by
  induction h with
  | stop _ => exact absurd hc List.not_mem_nil
  | @call _ _ c' _ passed _ ih =>
    rcases List.mem_cons.mp hc with rfl | hc
    · exact passed
    · exact (ih hc).trans ((c'.nonterminal.read c'.tokens).suffix.trans passed)

end Walk

/-- What a reader comes to, and the calls it made. -/
structure Logged (ts : List Token) where
  reading : Reading ts Unit
  calls : List Call
  walk : Walk ts calls reading.rest

namespace Logged

variable {α : Type} {ts : List Token}

/-- One call. -/
def call (n : Nonterminal) (ts : List Token) : Logged ts :=
  ⟨n.read ts, [⟨n, ts⟩], .call (List.suffix_refl ts) (.stop (List.suffix_refl _))⟩

/-- Tokens that are taken without a call. -/
def quiet (r : Reading ts α) : Logged ts := ⟨r.forget, [], .stop r.suffix⟩

/-- The same behind a token. -/
def after (t : Token) (x : Logged ts) : Logged (t :: ts) :=
  ⟨x.reading.after t, x.calls, x.walk.of_suffix (List.suffix_cons t ts)⟩

/-- Going on, after a success, with what is left. -/
def andThen (x : Logged ts) (next : (rest : List Token) → Logged rest) : Logged ts :=
  match x.reading.result with
  | .ok _ =>
    ⟨(next x.reading.rest).reading.widen x.reading.suffix,
      x.calls ++ (next x.reading.rest).calls, x.walk.append (next x.reading.rest).walk⟩
  | .error _ => x

/-- Going on with what is left, after a failure from where recovery leads. -/
def orRecover (x : Logged ts) (next : (rest : List Token) → Logged rest) : Logged ts :=
  match x.reading.result with
  | .ok _ =>
    ⟨(next x.reading.rest).reading.widen x.reading.suffix,
      x.calls ++ (next x.reading.rest).calls, x.walk.append (next x.reading.rest).walk⟩
  | .error _ =>
    have passed := recover_suffix x.reading.rest
    ⟨(next (recover x.reading.rest)).reading.widen (passed.trans x.reading.suffix),
      x.calls ++ (next (recover x.reading.rest)).calls,
      x.walk.append ((next (recover x.reading.rest)).walk.of_suffix passed)⟩

/-- Stopping for good, whether with a success or a failure. -/
def settled (x : Logged ts) : Logged ts :=
  ⟨⟨.ok (), x.reading.rest, x.reading.suffix⟩, x.calls, x.walk⟩

theorem reading_andThen (x : Logged ts) (next : (rest : List Token) → Logged rest) :
    (x.andThen next).reading = x.reading.andThen fun _ rest _ => (next rest).reading := by
  unfold andThen
  cases hresult : x.reading.result with
  | ok value => rw [Reading.andThen_of_ok hresult]
  | error e =>
    rw [Reading.andThen_of_error hresult]
    exact Reading.eq_of_result_rest hresult rfl

theorem orRecover_of_ok {x : Logged ts} {value : Unit} (h : x.reading.result = .ok value)
    (next : (rest : List Token) → Logged rest) :
    (x.orRecover next).reading = (next x.reading.rest).reading.widen x.reading.suffix := by
  simp only [orRecover, h]

theorem orRecover_of_error {x : Logged ts} {e : SyntaxError} (h : x.reading.result = .error e)
    (next : (rest : List Token) → Logged rest) :
    (x.orRecover next).reading = (next (recover x.reading.rest)).reading.widen
      ((recover_suffix x.reading.rest).trans x.reading.suffix) := by
  simp only [orRecover, h]

end Logged

namespace Nonterminal

open Logged

/-- A separator that is taken. -/
def separator (text : String) (ts : List Token) : Logged ts := quiet (expectSeparator text ts)

/-- **What a reader does with its tokens, call by call.** -/
def body : Nonterminal → (ts : List Token) → Logged ts
  | .level 0, ts => call .unary ts
  | .level (n + 1), ts => (call (.level n) ts).andThen (call (.chain n))
  | .chain _, [] => quiet (.done ())
  | .chain n, t :: ts =>
    match t.binaryOp? with
    | none => quiet (.done ())
    | some op =>
      if op.level = n then after t <| (call (.level n) ts).andThen (call (.chain n))
      else quiet (.done ())
  | .unary, [] => call .primary []
  | .unary, t :: ts =>
    match t.unaryOp? with
    | some _ => after t <| call .unary ts
    | none => call .primary (t :: ts)
  | .primary, [] => quiet (Reading.fail .expression : Reading [] Unit)
  | .primary, t :: ts =>
    match t.kind with
    | .integer | .float | .string => after t <| quiet (.done ())
    | .identifier =>
      if startsWith .separator "(" ts then after t <| call .arguments ts
      else after t <| quiet (.done ())
    | .keyword =>
      if t.text = "printf" && startsWith .separator "(" ts then after t <| call .arguments ts
      else quiet (Reading.fail .expression : Reading (t :: ts) Unit)
    | .separator =>
      if t.text = "(" then after t <| (call (.level BinaryOp.levels) ts).andThen (separator ")")
      else quiet (Reading.fail .expression : Reading (t :: ts) Unit)
    | .operator | .mismatch => quiet (Reading.fail .expression : Reading (t :: ts) Unit)
  | .arguments, ts =>
    (separator "(" ts).andThen fun rest =>
      if startsWith .separator ")" rest then separator ")" rest else call .firstArgument rest
  | .firstArgument, ts => (call (.level BinaryOp.levels) ts).andThen (call .moreArguments)
  | .moreArguments, [] => separator ")" []
  | .moreArguments, t :: ts =>
    if t.is .separator "," then after t <| call .firstArgument ts else separator ")" (t :: ts)
  | .init, [] => quiet (.done ())
  | .init, t :: ts =>
    if t.is .operator "=" then after t <| call (.level BinaryOp.levels) ts else quiet (.done ())
  | .declaration, ts =>
    (quiet (expectKind .identifier ts)).andThen fun rest =>
      (call .init rest).andThen (separator ";")
  | .value, ts => (quiet (expect .operator "=" ts)).andThen (call (.level BinaryOp.levels))
  | .assignment, ts => (quiet (expectKind .identifier ts)).andThen (call .value)
  | .returned, ts =>
    if startsWith .separator ";" ts then separator ";" ts
    else (call (.level BinaryOp.levels) ts).andThen (separator ";")
  | .condition, ts =>
    (separator "(" ts).andThen fun rest =>
      (call (.level BinaryOp.levels) rest).andThen (separator ")")
  | .loopHead, ts =>
    (separator "(" ts).andThen fun rest =>
      (quiet (expect .keyword "int" rest)).andThen fun rest =>
        (call .declaration rest).andThen fun rest =>
          (call (.level BinaryOp.levels) rest).andThen fun rest =>
            (separator ";" rest).andThen fun rest =>
              (call .assignment rest).andThen (separator ")")
  | .block, ts => (separator Token.openBrace ts).andThen (call .statements)
  | .statements, [] => quiet (Reading.fail (.text Token.closeBrace) : Reading [] Unit)
  | .statements, t :: ts =>
    if t.is .separator Token.closeBrace then after t <| quiet (.done ())
    else (call .statement (t :: ts)).orRecover (call .statements)
  | .statement, [] => quiet (Reading.fail .statement : Reading [] Unit)
  | .statement, t :: ts =>
    match Opening.of? t ts with
    | none => quiet (Reading.fail .statement : Reading (t :: ts) Unit)
    | some .declaration => after t <| call .declaration ts
    | some (.ret _) => after t <| call .returned ts
    | some (.call _) => after t <| (call .arguments ts).andThen (separator ";")
    | some (.assignment _) => after t <| (call .value ts).andThen (separator ";")
    | some .branch =>
      after t <| (call .condition ts).andThen fun rest => (call .block rest).andThen (call .elseBlock)
    | some .loop => after t <| (call .loopHead ts).andThen (call .block)
  | .elseBlock, [] => quiet (.done ())
  | .elseBlock, t :: ts =>
    if t.is .keyword "else" then after t <| call .block ts else quiet (.done ())
  | .someParams, ts =>
    (quiet (expect .keyword "int" ts)).andThen fun rest =>
      (quiet (expectKind .identifier rest)).andThen fun
        | [] => separator ")" []
        | t :: rest =>
          if t.is .separator "," then after t <| call .someParams rest
          else separator ")" (t :: rest)
  | .params, ts =>
    (separator "(" ts).andThen fun rest =>
      if startsWith .separator ")" rest then separator ")" rest else call .someParams rest
  | .function, [] => quiet (Reading.fail (.kind .keyword) : Reading [] Unit)
  | .function, t :: ts =>
    match TypeName.ofToken t with
    | .error e => quiet (⟨.error e, ts, List.suffix_cons t ts⟩ : Reading (t :: ts) Unit)
    | .ok _ =>
      after t <| (quiet (expectKind .identifier ts)).andThen fun rest =>
        (call .params rest).andThen (call .block)
  | .program, [] => quiet (.done ())
  | .program, t :: ts => ((call .function (t :: ts)).andThen (call .program)).settled

end Nonterminal

/-- The calls that a call makes, in order. -/
def Call.calls (c : Call) : List Call := (c.nonterminal.body c.tokens).calls

/-- **One call makes another.** -/
def Call.Calls (c c' : Call) : Prop := c' ∈ c.calls

/-! ## 4. The bodies are the readers -/

/-- The left operand has no part in how the rest of a chain is read. -/
theorem Expr.forget_readChain (n : Nat) (left left' : Expr) (ts : List Token) :
    (readChain n left ts).forget = (readChain n left' ts).forget := by
  cases ts with
  | nil =>
    rw [readChain, readChain]
    rfl
  | cons t ts =>
    rw [readChain, readChain]
    cases t.binaryOp? with
    | none => rfl
    | some op =>
      by_cases hop : op.level = n
      · simp only [if_pos hop, Reading.forget_after]
        have hnext : ∀ operand right rest, rest.length ≤ ts.length →
            (readChain n (.binary op operand right) rest).forget =
              (readChain n left rest).forget :=
          fun operand right rest hle => forget_readChain n _ left rest
        rw [Reading.forget_andThen _ (fun rest => (readChain n left rest).forget) (hnext left),
          Reading.forget_andThen _ (fun rest => (readChain n left rest).forget) (hnext left')]
      · simp only [if_neg hop]
        rfl
termination_by ts.length
decreasing_by rw [List.length_cons]; omega

namespace Logged

variable {α β : Type} {ts : List Token}

/-- The two succeed or fail alike, and leave the same tokens. -/
def Matches (x : Logged ts) (r : Reading ts α) : Prop := x.reading = r.forget

theorem Matches.after {x : Logged ts} {r : Reading ts α} (h : x.Matches r) (t : Token) :
    (x.after t).Matches (r.after t) :=
  congrArg (Reading.after t) h

theorem Matches.map {x : Logged ts} {r : Reading ts α} (h : x.Matches r) (f : α → β) :
    x.Matches (r.map f) :=
  h.trans (Reading.forget_map r f).symm

theorem Matches.andThen {x : Logged ts} {r : Reading ts α} (h : x.Matches r)
    {next : α → (rest : List Token) → rest.length ≤ ts.length → Reading rest β}
    {next' : (rest : List Token) → Logged rest}
    (hnext : ∀ value rest hle, (next' rest).Matches (next value rest hle)) :
    (x.andThen next').Matches (r.andThen next) := by
  have hforget := Reading.forget_andThen r (fun rest => (next' rest).reading)
    fun value rest hle => (hnext value rest hle).symm
  rw [Matches, reading_andThen, hforget, h]

theorem Matches.ite {p : Prop} [Decidable p] {x y : Logged ts} {r s : Reading ts α}
    (hx : x.Matches r) (hy : y.Matches s) :
    (if p then x else y).Matches (if p then r else s) := by
  split
  · exact hx
  · exact hy

end Logged

namespace Nonterminal

open Logged

theorem matches_separator (text : String) (ts : List Token) :
    (separator text ts).Matches (expectSeparator text ts) := rfl

theorem matches_chain (n : Nat) (left : Expr) (ts : List Token) :
    (call (.chain n) ts).Matches (Expr.readChain n left ts) :=
  Expr.forget_readChain n _ left ts

theorem matches_value (target : Ident) (ts : List Token) :
    (call .value ts).Matches (Assignment.readTo target ts) := by
  have hvalue : ∀ target, (Assignment.readTo target ts).forget =
      (expect .operator "=" ts).forget.andThen fun _ rest _ => (Expr.read rest).forget :=
    fun target => Reading.forget_andThen _ _ fun _ rest _ => Reading.forget_map _ _
  exact (hvalue _).trans (hvalue target).symm

theorem level_matches (n : Nat) (ts : List Token) :
    ((level n).body ts).Matches (Expr.readLevel n ts) := by
  cases n with
  | zero =>
    rw [Expr.readLevel]
    rfl
  | succ n =>
    rw [Expr.readLevel]
    refine .andThen ?_ fun left rest _ => matches_chain n left rest
    rfl

theorem chain_matches (n : Nat) (left : Expr) (ts : List Token) :
    ((chain n).body ts).Matches (Expr.readChain n left ts) := by
  cases ts with
  | nil =>
    rw [Expr.readChain]
    rfl
  | cons t ts =>
    rw [Expr.readChain, body]
    cases t.binaryOp? with
    | none => rfl
    | some op =>
      refine .ite (.after (.andThen ?_ fun right rest _ => matches_chain n _ rest) t) ?_
      · rfl
      · rfl

theorem unary_matches (ts : List Token) : (unary.body ts).Matches (Expr.readUnary ts) := by
  cases ts with
  | nil =>
    rw [Expr.readUnary]
    rfl
  | cons t ts =>
    rw [Expr.readUnary, body]
    cases t.unaryOp? with
    | none => rfl
    | some op =>
      refine .after (.map ?_ _) t
      rfl

theorem primary_matches (t : Token) (ts : List Token) :
    (primary.body (t :: ts)).Matches (Expr.readPrimary t ts) := by
  rw [Expr.readPrimary, body]
  cases t.kind with
  | float | integer | string | operator | mismatch => rfl
  | identifier | keyword =>
    refine .ite (.after (.map ?_ _) t) ?_
    · rfl
    · rfl
  | separator =>
    refine .ite (.after (.andThen ?_ fun e rest _ => (matches_separator _ rest).map _) t) ?_
    · rfl
    · rfl

theorem arguments_matches (ts : List Token) :
    (arguments.body ts).Matches (Expr.readArguments ts) := by
  rw [Expr.readArguments]
  refine (matches_separator _ ts).andThen fun _ rest _ => .ite ((matches_separator _ rest).map _) ?_
  rfl

theorem firstArgument_matches (ts : List Token) :
    (firstArgument.body ts).Matches (Expr.readFirstArgument ts) := by
  rw [Expr.readFirstArgument]
  refine .andThen ?_ fun _ rest _ => .map ?_ _
  · rfl
  · rfl

theorem moreArguments_matches (ts : List Token) :
    (moreArguments.body ts).Matches (Expr.readMoreArguments ts) := by
  cases ts with
  | nil =>
    rw [Expr.readMoreArguments]
    exact (matches_separator _ []).map _
  | cons t ts =>
    rw [Expr.readMoreArguments]
    refine .ite (.after ?_ t) ((matches_separator _ (t :: ts)).map _)
    rfl

theorem init_matches (ts : List Token) : (init.body ts).Matches (Expr.readInit ts) := by
  cases ts with
  | nil => rfl
  | cons t ts =>
    refine .ite (.after (.map ?_ _) t) ?_
    · rfl
    · rfl

theorem declaration_matches (ts : List Token) :
    (declaration.body ts).Matches (Declaration.read ts) := by
  refine .andThen ?_ fun _ rest _ => .andThen ?_ fun _ rest _ => (matches_separator _ rest).map _
  · rfl
  · rfl

theorem value_matches (target : Ident) (ts : List Token) :
    (value.body ts).Matches (Assignment.readTo target ts) := by
  refine .andThen ?_ fun _ rest _ => .map ?_ _
  · rfl
  · rfl

theorem assignment_matches (ts : List Token) :
    (assignment.body ts).Matches (Assignment.read ts) := by
  refine .andThen ?_ fun name rest _ => matches_value name.ident rest
  rfl

theorem returned_matches (ts : List Token) :
    (returned.body ts).Matches (Expr.readReturned ts) := by
  refine .ite ((matches_separator _ ts).map _) (.andThen ?_ fun _ rest _ => ?_)
  · rfl
  · exact (matches_separator _ rest).map _

theorem condition_matches (ts : List Token) :
    (condition.body ts).Matches (Expr.readCondition ts) := by
  refine (matches_separator _ ts).andThen fun _ rest _ => .andThen ?_ fun _ rest _ => ?_
  · rfl
  · exact (matches_separator _ rest).map _

theorem loopHead_matches (ts : List Token) : (loopHead.body ts).Matches (LoopHead.read ts) := by
  refine (matches_separator _ ts).andThen fun _ rest _ => .andThen ?_ fun _ rest _ => ?_
  · rfl
  refine .andThen ?_ fun init rest _ => .andThen ?_ fun cond rest _ => ?_
  · rfl
  · rfl
  refine (matches_separator _ rest).andThen fun _ rest _ => .andThen ?_ fun step rest _ => ?_
  · rfl
  · exact (matches_separator _ rest).map _

theorem block_matches (ts : List Token) :
    (block.body ts).Matches (Stmt.readBlock ts).toReading := by
  rw [Stmt.readBlock, Tolerant.toReading_andThen]
  refine (matches_separator _ ts).andThen fun _ rest _ => ?_
  rfl

theorem elseBlock_matches (ts : List Token) :
    (elseBlock.body ts).Matches (Stmt.readElse ts).toReading := by
  cases ts with
  | nil =>
    rw [Stmt.readElse]
    rfl
  | cons t ts =>
    rw [Stmt.readElse, body]
    split
    · refine .after (.map ?_ _) t
      rfl
    · rfl

theorem statement_matches (ts : List Token) :
    (statement.body ts).Matches (Stmt.read ts).toReading := by
  cases ts with
  | nil => rfl
  | cons t ts =>
    rw [body]
    cases hopening : Opening.of? t ts with
    | none =>
      rw [Stmt.read_of_none hopening]
      rfl
    | some opening =>
      rw [Stmt.read_of_some hopening, Tolerant.toReading_after]
      cases opening with
      | declaration | ret line =>
        rw [Stmt.readOpened]
        refine .after (.map ?_ _) t
        rfl
      | call callee =>
        rw [Stmt.readOpened]
        refine .after (.andThen ?_ fun _ rest _ => (matches_separator _ rest).map _) t
        rfl
      | assignment target =>
        rw [Stmt.readOpened]
        refine .after ?_ t
        exact (matches_value target ts).andThen fun _ rest _ => (matches_separator _ rest).map _
      | branch =>
        rw [Stmt.readOpened, Tolerant.toReading_andThen]
        refine .after (.andThen ?_ fun _ rest _ => ?_) t
        · rfl
        rw [Tolerant.toReading_andThen]
        refine .andThen ?_ fun _ rest _ => .map ?_ _
        · rfl
        · rfl
      | loop =>
        rw [Stmt.readOpened, Tolerant.toReading_andThen]
        refine .after (.andThen ?_ fun _ rest _ => .map ?_ _) t
        · rfl
        · rfl

/-- The block goes on after a statement that was read, and after one that was not. -/
theorem statements_matches (ts : List Token) :
    (statements.body ts).Matches (Stmt.readAll ts).toReading := by
  cases ts with
  | nil =>
    rw [Stmt.readAll]
    rfl
  | cons t ts =>
    rw [body]
    cases ht : t.is .separator Token.closeBrace with
    | true =>
      rw [Stmt.readAll, dif_pos ht]
      rfl
    | false =>
      rw [if_neg (by simp)]
      have hcall : (call .statement (t :: ts)).reading.result =
          (Stmt.read (t :: ts)).result.map fun _ => () := rfl
      cases hresult : (Stmt.read (t :: ts)).result with
      | ok stmt =>
        obtain ⟨hall, hrest, -⟩ := Stmt.readAll_of_ok ht hresult
        rw [hresult] at hcall
        rw [Matches, orRecover_of_ok hcall]
        refine Reading.eq_of_result_rest ?_ hrest.symm
        rw [Reading.forget, Reading.result_map, hall]
        exact congrArg Reading.result (Reading.forget_map _ (stmt :: ·)).symm
      | error e =>
        obtain ⟨hall, hrest, -⟩ := Stmt.readAll_of_error ht hresult
        rw [hresult] at hcall
        rw [Matches, orRecover_of_error hcall]
        refine Reading.eq_of_result_rest ?_ hrest.symm
        rw [Reading.forget, Reading.result_map, hall]
        rfl

theorem someParams_matches (ts : List Token) :
    (someParams.body ts).Matches (Param.readSome ts) := by
  rw [Param.readSome]
  refine .andThen ?_ fun _ rest _ => .andThen ?_ fun name rest _ => ?_
  · rfl
  · rfl
  cases rest with
  | nil => exact (matches_separator _ []).map _
  | cons t rest =>
    refine .ite (.after (.map ?_ _) t) ((matches_separator _ (t :: rest)).map _)
    rfl

theorem params_matches (ts : List Token) : (params.body ts).Matches (Param.readList ts) := by
  refine (matches_separator _ ts).andThen fun _ rest _ => .ite ((matches_separator _ rest).map _) ?_
  rfl

theorem function_matches (ts : List Token) :
    (function.body ts).Matches (Function.readTyped ts) := by
  cases ts with
  | nil => rfl
  | cons t ts =>
    rw [body, Function.readTyped]
    cases TypeName.ofToken t with
    | error e => rfl
    | ok type =>
      simp only
      refine .after ?_ t
      unfold Function.read
      rw [Tolerant.toReading_andThen]
      refine .andThen ?_ fun _ rest _ => ?_
      · rfl
      rw [Tolerant.toReading_andThen]
      refine .andThen ?_ fun _ rest _ => .map ?_ _
      · rfl
      · rfl

theorem reading_program (ts : List Token) : (program.body ts).reading = program.read ts := by
  refine Reading.eq_of_result_rest (by cases ts <;> rfl) ?_
  cases ts with
  | nil => exact (List.suffix_nil.mp (Program.rest_read_suffix [])).symm
  | cons t ts =>
    have hbody : (program.body (t :: ts)).reading.rest =
        ((call .function (t :: ts)).andThen (call .program)).reading.rest := rfl
    have hread : (program.read (t :: ts)).rest = (Program.read (t :: ts)).rest := rfl
    have hcall : (call .function (t :: ts)).reading = (Function.readTyped (t :: ts)).forget := rfl
    rw [hbody, hread, reading_andThen, hcall, Program.rest_read_cons]
    cases hresult : (Function.readTyped (t :: ts)).result with
    | error e =>
      rw [Reading.andThen_of_error (Reading.result_forget_of_error hresult)]
      rfl
    | ok f =>
      rw [Reading.andThen_of_ok (Reading.result_forget_of_ok hresult)]
      rfl

/-- **Doing what the body of a reader says comes to what the reader comes to.** -/
theorem reading_body (n : Nonterminal) (ts : List Token) : (n.body ts).reading = n.read ts := by
  cases n with
  | level n => exact level_matches n ts
  | chain n => exact chain_matches n _ ts
  | unary => exact unary_matches ts
  | primary =>
    cases ts with
    | nil => rfl
    | cons t ts => exact primary_matches t ts
  | arguments => exact arguments_matches ts
  | firstArgument => exact firstArgument_matches ts
  | moreArguments => exact moreArguments_matches ts
  | init => exact init_matches ts
  | declaration => exact declaration_matches ts
  | value => exact value_matches _ ts
  | assignment => exact assignment_matches ts
  | returned => exact returned_matches ts
  | condition => exact condition_matches ts
  | loopHead => exact loopHead_matches ts
  | block => exact block_matches ts
  | statements => exact statements_matches ts
  | statement => exact statement_matches ts
  | elseBlock => exact elseBlock_matches ts
  | someParams => exact someParams_matches ts
  | params => exact params_matches ts
  | function => exact function_matches ts
  | program => exact reading_program ts

end Nonterminal

end MiniC
