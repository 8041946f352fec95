import Mathlib
import MiniC.Proofs.Grammar.Rounds

/-!
# Reading makes progress and ends

No reader goes back to tokens it has passed, and none passes more than there are: its calls lie one
behind the other (`Call.walk`). A call starts on fewer tokens than the reader that makes it, or on
the same ones with a reader further down in the grammar (`Call.Calls.descends`). So a reader that is
called again from within itself, be it through an expression in parentheses, a block in a block or
the next round of a loop, has fewer tokens left than before (`Call.length_lt_of_transGen`), and calls
end (`Call.wellFounded`).

What a round of each loop does, and that the next round has fewer tokens, is said of the readers
themselves (`Rounds`). The round of a block whose statement cannot be read is the delicate one: its
reader may have taken nothing, and recovery takes nothing at a closing brace. The block has not come
to a closing brace in such a round, so one of the two takes a token (`Stmt.resumption_suffix`).

Main statement: `Program.readings_progress`, about any number of readings of one token list.
-/

namespace MiniC

/-! ## 1. A call descends -/

namespace Nonterminal

/-- How far up in the grammar a reader is: what it may call before it has taken a token is of lower
    rank. -/
def rank : Nonterminal → Nat
  | .chain _ | .primary | .moreArguments | .statement | .elseBlock | .someParams | .function => 0
  | .unary | .statements | .params | .program => 1
  | .block => 2
  | .level n => n + 2
  | .firstArgument | .init | .value | .returned | .condition => BinaryOp.levels + 3
  | .arguments | .declaration | .assignment => BinaryOp.levels + 4
  | .loopHead => BinaryOp.levels + 5

end Nonterminal

namespace Logged

variable {α : Type} {ts : List Token} {k : Nat}

/-- Each of the calls is on fewer tokens, or of a rank below `k`. -/
def Descends (k : Nat) (x : Logged ts) : Prop :=
  ∀ c ∈ x.calls, c.tokens.length < ts.length ∨ c.nonterminal.rank < k

theorem descends_quiet (r : Reading ts α) : (quiet r).Descends k := List.forall_mem_nil _

theorem descends_call {n : Nonterminal} (h : n.rank < k) (ts : List Token) :
    (call n ts).Descends k := by
  intro c hc
  rcases List.mem_singleton.mp hc with rfl
  exact .inr h

/-- Behind a token everything is on fewer tokens. -/
theorem descends_after (t : Token) (x : Logged ts) : (x.after t).Descends k := fun _ hc =>
  .inl (Nat.lt_succ_of_le (x.walk.tokens_suffix hc).length_le)

theorem Descends.andThen {x : Logged ts} {next : (rest : List Token) → Logged rest}
    (hx : x.Descends k) (hnext : ∀ rest, (next rest).Descends k) :
    (x.andThen next).Descends k := by
  unfold Logged.andThen
  cases x.reading.result with
  | error e => exact hx
  | ok value =>
    intro c hc
    rcases List.mem_append.mp hc with hc | hc
    · exact hx c hc
    · have hle := x.reading.suffix.length_le
      exact (hnext x.reading.rest c hc).imp_left fun hlt => by omega

theorem Descends.ite {p : Prop} [Decidable p] {x y : Logged ts} (hx : x.Descends k)
    (hy : y.Descends k) : (if p then x else y).Descends k := by
  split
  · exact hx
  · exact hy

end Logged

namespace Nonterminal

open Logged

theorem descends_separator (text : String) (ts : List Token) {k : Nat} :
    (separator text ts).Descends k := descends_quiet _

theorem descends_chain (n k : Nat) (ts : List Token) : ((chain n).body ts).Descends k := by
  cases ts with
  | nil => exact descends_quiet _
  | cons t ts =>
    rw [body]
    cases t.binaryOp? with
    | none => exact descends_quiet _
    | some op => exact .ite (descends_after t _) (descends_quiet _)

theorem descends_primary (ts : List Token) {k : Nat} : (primary.body ts).Descends k := by
  cases ts with
  | nil => exact descends_quiet _
  | cons t ts =>
    rw [body]
    cases t.kind with
    | float | integer | string => exact descends_after t _
    | operator | mismatch => exact descends_quiet _
    | identifier => exact .ite (descends_after t _) (descends_after t _)
    | keyword | separator => exact .ite (descends_after t _) (descends_quiet _)

theorem descends_statement (ts : List Token) {k : Nat} : (statement.body ts).Descends k := by
  cases ts with
  | nil => exact descends_quiet _
  | cons t ts =>
    rw [body]
    cases Opening.of? t ts with
    | none => exact descends_quiet _
    | some opening => cases opening <;> exact descends_after t _

theorem descends_statements (ts : List Token) : (statements.body ts).Descends statements.rank := by
  cases ts with
  | nil => exact descends_quiet _
  | cons t ts =>
    cases ht : t.is .separator Token.closeBrace with
    | true =>
      rw [body, if_pos ht]
      exact descends_after t _
    | false =>
      intro c hc
      have hc' : c ∈ Call.calls ⟨.statements, t :: ts⟩ := hc
      rw [Call.calls_statements ht] at hc'
      rcases List.mem_cons.mp hc' with rfl | hc'
      · exact .inr Nat.zero_lt_one
      · rcases List.mem_singleton.mp hc' with rfl
        exact .inl (length_lt_of_suffix (Stmt.resumption_suffix ht ts) t)

theorem descends_someParams (ts : List Token) {k : Nat} : (someParams.body ts).Descends k := by
  refine (descends_quiet _).andThen fun rest => (descends_quiet _).andThen fun rest => ?_
  cases rest with
  | nil => exact descends_separator _ _
  | cons t rest => exact .ite (descends_after t _) (descends_separator _ _)

theorem descends_function (ts : List Token) {k : Nat} : (function.body ts).Descends k := by
  cases ts with
  | nil => exact descends_quiet _
  | cons t ts =>
    rw [body]
    cases TypeName.ofToken t with
    | error e => exact descends_quiet _
    | ok type => exact descends_after t _

theorem descends_program (ts : List Token) : (program.body ts).Descends program.rank := by
  cases ts with
  | nil => exact descends_quiet _
  | cons t ts =>
    intro c hc
    have hc' : c ∈ Call.calls ⟨.program, t :: ts⟩ := hc
    rw [Call.calls_program] at hc'
    rcases List.mem_cons.mp hc' with rfl | hc'
    · exact .inr Nat.zero_lt_one
    · rcases List.mem_singleton.mp (Reading.mem_of_mem_next hc') with rfl
      exact .inl (length_lt_of_suffix (Function.rest_readTyped_suffix t ts) t)

/-- **What a reader calls is on fewer tokens or of lower rank.** -/
theorem descends_body (n : Nonterminal) (ts : List Token) : (n.body ts).Descends n.rank := by
  cases n with
  | level n =>
    cases n with
    | zero => exact descends_call (by decide) ts
    | succ n =>
      exact (descends_call (Nat.lt_succ_self _) ts).andThen (descends_call (Nat.succ_pos _))
  | chain n => exact descends_chain n _ ts
  | unary =>
    cases ts with
    | nil => exact descends_call (by decide) []
    | cons t ts =>
      rw [body]
      cases t.unaryOp? with
      | some op => exact descends_after t _
      | none => exact descends_call (by decide) _
  | primary => exact descends_primary ts
  | arguments =>
    exact (descends_separator _ ts).andThen fun rest =>
      .ite (descends_separator _ rest) (descends_call (by decide) rest)
  | firstArgument => exact (descends_call (by decide) ts).andThen (descends_call (by decide))
  | moreArguments =>
    cases ts with
    | nil => exact descends_separator _ _
    | cons t ts => exact .ite (descends_after t _) (descends_separator _ _)
  | init =>
    cases ts with
    | nil => exact descends_quiet _
    | cons t ts => exact .ite (descends_after t _) (descends_quiet _)
  | declaration =>
    exact (descends_quiet _).andThen fun rest =>
      (descends_call (by decide) rest).andThen fun rest => descends_separator _ rest
  | value => exact (descends_quiet _).andThen (descends_call (by decide))
  | assignment => exact (descends_quiet _).andThen (descends_call (by decide))
  | returned =>
    exact .ite (descends_separator _ ts)
      ((descends_call (by decide) ts).andThen fun rest => descends_separator _ rest)
  | condition =>
    exact (descends_separator _ ts).andThen fun rest =>
      (descends_call (by decide) rest).andThen fun rest => descends_separator _ rest
  | loopHead =>
    refine (descends_separator _ ts).andThen fun rest => (descends_quiet _).andThen fun rest => ?_
    refine (descends_call (by decide) rest).andThen fun rest => ?_
    refine (descends_call (by decide) rest).andThen fun rest => ?_
    refine (descends_separator _ rest).andThen fun rest => ?_
    exact (descends_call (by decide) rest).andThen fun rest => descends_separator _ rest
  | block => exact (descends_separator _ ts).andThen (descends_call (by decide))
  | statements => exact descends_statements ts
  | statement => exact descends_statement ts
  | elseBlock =>
    cases ts with
    | nil => exact descends_quiet _
    | cons t ts => exact .ite (descends_after t _) (descends_quiet _)
  | someParams => exact descends_someParams ts
  | params =>
    exact (descends_separator _ ts).andThen fun rest =>
      .ite (descends_separator _ rest) (descends_call (by decide) rest)
  | function => exact descends_function ts
  | program => exact descends_program ts

end Nonterminal

/-! ## 2. Calls of calls -/

namespace Call

variable {c c' : Call}

/-- **A call goes on where the ones before it in the same reader stopped, or later.** -/
theorem walk (c : Call) : Walk c.tokens c.calls c.rest := by
  have hrest : (c.nonterminal.body c.tokens).reading.rest = c.rest := by
    rw [Nonterminal.reading_body]
    rfl
  exact hrest ▸ (c.nonterminal.body c.tokens).walk

theorem calls_of_eq {calls : List Call} (h : c.calls = calls) (hmem : c' ∈ calls) :
    c.Calls c' := by
  rw [Calls, h]
  exact hmem

theorem Calls.descends (h : c.Calls c') :
    c'.tokens.length < c.tokens.length ∨ c'.nonterminal.rank < c.nonterminal.rank :=
  Nonterminal.descends_body c.nonterminal c.tokens c' h

theorem Calls.suffix (h : c.Calls c') : c'.tokens <:+ c.tokens := c.walk.tokens_suffix h

theorem suffix_of_reflTransGen (h : Relation.ReflTransGen Calls c c') :
    c'.tokens <:+ c.tokens := by
  induction h with
  | refl => exact List.suffix_refl _
  | tail _ hcall ih => exact hcall.suffix.trans ih

/-- Down a chain of calls the tokens get fewer, or the rank does. -/
theorem descends_of_transGen (h : Relation.TransGen Calls c c') :
    c'.tokens.length < c.tokens.length ∨ c'.nonterminal.rank < c.nonterminal.rank := by
  induction h with
  | single hcall => exact hcall.descends
  | tail hcalls hcall ih =>
    have hle := (suffix_of_reflTransGen hcalls.to_reflTransGen).length_le
    have hle' := hcall.suffix.length_le
    have hstep := hcall.descends
    omega

/-- **A reader that is called again from within itself has fewer tokens left.** -/
theorem length_lt_of_transGen (h : Relation.TransGen Calls c c')
    (hsame : c'.nonterminal = c.nonterminal) : c'.tokens.length < c.tokens.length := by
  rcases descends_of_transGen h with hlt | hlt
  · exact hlt
  · rw [hsame] at hlt
    exact absurd hlt (Nat.lt_irrefl _)

/-- **Calls end.** -/
theorem wellFounded : WellFounded fun c' c : Call => c.Calls c' := by
  -- First by the number of tokens, then, on the same ones, by the rank of the reader.
  refine Subrelation.wf (fun {c' c} h => ?_)
    (InvImage.wf (fun c : Call => (c.tokens.length, c.nonterminal.rank))
      (Prod.lex ⟨_, Nat.lt_wfRel.wf⟩ ⟨_, Nat.lt_wfRel.wf⟩).wf)
  have hle := h.suffix.length_le
  rcases h.descends with hlt | hlt
  · exact .left _ _ hlt
  · rcases Nat.lt_or_eq_of_le hle with hlt' | heq
    · exact .left _ _ hlt'
    · show Prod.Lex _ _ (c'.tokens.length, _) (c.tokens.length, _)
      rw [heq]
      exact .right _ hlt

/-- An expression starts with a unary one. -/
theorem transGen_unary (n : Nat) (ts : List Token) :
    Relation.TransGen Calls ⟨.level n, ts⟩ ⟨.unary, ts⟩ := by
  induction n with
  | zero => exact .single (List.mem_singleton_self _)
  | succ n ih => exact .head (calls_of_eq (calls_level n ts) List.mem_cons_self) ih

end Call

/-! ## 3. Reading again and again -/

namespace Program

/-- What `n` readings leave of `ts`. -/
def left (ts : List Token) (n : Nat) : List Token := (fun us => (read us).rest)^[n] ts

theorem left_succ (ts : List Token) (n : Nat) : left ts (n + 1) = (read (left ts n)).rest :=
  Function.iterate_succ_apply' _ n ts

theorem readRepeatedly_eq_map (n : Nat) (ts : List Token) :
    readRepeatedly n ts = (List.range n).map fun i => read (left ts i) := by
  induction n generalizing ts with
  | zero => rfl
  | succ n ih =>
    rw [readRepeatedly, ih, List.range_succ_eq_map, List.map_cons, List.map_map]
    rfl

theorem read_nil : read [] = ⟨[], [], []⟩ := by rw [read]

/-- **A reading takes a token if there is one.** -/
theorem length_rest_read_lt {ts : List Token} (h : ts ≠ []) : (read ts).rest.length < ts.length := by
  cases ts with
  | nil => exact absurd rfl h
  | cons t ts =>
    have hle := (Function.rest_readTyped_suffix t ts).length_le
    rw [rest_read_cons, List.length_cons]
    cases (Function.readTyped (t :: ts)).result with
    | error e => exact Nat.lt_succ_of_le hle
    | ok f =>
      have hle' := (rest_read_suffix (Function.readTyped (t :: ts)).rest).length_le
      exact Nat.lt_succ_of_le (hle'.trans hle)

theorem left_suffix (ts : List Token) (n : Nat) : left ts n <:+ ts := by
  induction n with
  | zero => exact List.suffix_refl ts
  | succ n ih =>
    rw [left_succ]
    exact (rest_read_suffix _).trans ih

/-- Each of the readings took a token, unless nothing is left. -/
theorem length_left (ts : List Token) (n : Nat) :
    left ts n = [] ∨ (left ts n).length + n ≤ ts.length := by
  induction n with
  | zero => exact .inr (Nat.le_refl _)
  | succ n ih =>
    rw [left_succ]
    by_cases hnil : left ts n = []
    · rw [hnil, read_nil]
      exact .inl rfl
    · have hlt := length_rest_read_lt hnil
      have hle := ih.resolve_left hnil
      exact .inr (by omega)

theorem left_eq_nil {ts : List Token} {n : Nat} (h : ts.length ≤ n) : left ts n = [] := by
  rcases length_left ts n with hnil | hle
  · exact hnil
  · exact List.eq_nil_of_length_eq_zero (by omega)

/-- **Reading makes progress and ends.** This is about any number of readings of `ts`, which need
    not be the tokens of a text: the `i`-th reads what the ones before it left.

    The calls of every reader lie one behind the other within its tokens, and those are the last
    ones of `ts`. A reader that is called again from within itself has fewer tokens left, and calls
    end. What the readers that come back to themselves are made of, and which calls that makes, is
    said by `Rounds`: a round of operators, arguments, parameters or statements that is followed by
    another has more tokens than that one, also when its statement could not be read and took no
    token. `Clauses` lists the other calls. A reading that starts before the end takes a token; so
    after as many readings as there are tokens, readings give no functions and no errors. -/
theorem readings_progress (ts : List Token) :
    (∀ n, readRepeatedly n ts = (List.range n).map fun i => read (left ts i)) ∧
    (∀ (n : Nonterminal) us, (n.body us).reading = n.read us) ∧
    (∀ i c, Relation.ReflTransGen Call.Calls ⟨.program, left ts i⟩ c →
      c.tokens <:+ left ts i ∧ left ts i <:+ ts ∧ Walk c.tokens c.calls c.rest) ∧
    Rounds ∧ Clauses ∧
    (∀ c c', Relation.TransGen Call.Calls c c' → c'.nonterminal = c.nonterminal →
      c'.tokens.length < c.tokens.length) ∧
    (WellFounded fun c' c : Call => c.Calls c') ∧
    (∀ i, left ts i ≠ [] → (left ts (i + 1)).length < (left ts i).length) ∧
    (∀ n i p, (readRepeatedly n ts)[i]? = some p → ts.length ≤ i → p = ⟨[], [], []⟩) := by
  refine ⟨fun n => readRepeatedly_eq_map n ts, Nonterminal.reading_body, fun i c hc => ?_,
    rounds, clauses, fun c c' => Call.length_lt_of_transGen, Call.wellFounded, fun i hi => ?_,
    fun n i p hp hi => ?_⟩
  · exact ⟨Call.suffix_of_reflTransGen hc, left_suffix ts i, c.walk⟩
  · rw [left_succ]
    exact length_rest_read_lt hi
  · rw [readRepeatedly_eq_map, List.getElem?_map] at hp
    obtain ⟨j, hj, rfl⟩ := Option.map_eq_some_iff.mp hp
    obtain ⟨hlt, rfl⟩ := List.getElem?_eq_some_iff.mp hj
    rw [List.getElem_range, left_eq_nil hi, read_nil]

/-- A text in which every loop has a second round. The first round of its block finds a value in the
    place of a statement, which its reader leaves there. -/
def everyLoop : String := "int f(int a, int b) \x7b 5 ; f(1 + 2, -(3)); \x7d"

/-- The tokens of `everyLoop`. -/
def loopTokens : List Token :=
  [⟨.keyword, "int", ⟨1, 1⟩⟩, ⟨.identifier, "f", ⟨1, 5⟩⟩, ⟨.separator, "(", ⟨1, 6⟩⟩,
    ⟨.keyword, "int", ⟨1, 7⟩⟩, ⟨.identifier, "a", ⟨1, 11⟩⟩, ⟨.separator, ",", ⟨1, 12⟩⟩,
    ⟨.keyword, "int", ⟨1, 14⟩⟩, ⟨.identifier, "b", ⟨1, 18⟩⟩, ⟨.separator, ")", ⟨1, 19⟩⟩,
    ⟨.separator, Token.openBrace, ⟨1, 21⟩⟩, ⟨.integer, "5", ⟨1, 23⟩⟩, ⟨.separator, ";", ⟨1, 25⟩⟩,
    ⟨.identifier, "f", ⟨1, 27⟩⟩, ⟨.separator, "(", ⟨1, 28⟩⟩, ⟨.integer, "1", ⟨1, 29⟩⟩,
    ⟨.operator, "+", ⟨1, 31⟩⟩, ⟨.integer, "2", ⟨1, 33⟩⟩, ⟨.separator, ",", ⟨1, 34⟩⟩,
    ⟨.operator, "-", ⟨1, 36⟩⟩, ⟨.separator, "(", ⟨1, 37⟩⟩, ⟨.integer, "3", ⟨1, 38⟩⟩,
    ⟨.separator, ")", ⟨1, 39⟩⟩, ⟨.separator, ")", ⟨1, 40⟩⟩, ⟨.separator, ";", ⟨1, 41⟩⟩,
    ⟨.separator, Token.closeBrace, ⟨1, 43⟩⟩]

theorem readings_progress_everyLoop :
    Token.scan everyLoop = loopTokens ∧
      -- the block: `5 ;`, then the call
      Relation.ReflTransGen Call.Calls ⟨.program, loopTokens⟩ ⟨.statements, loopTokens.drop 10⟩ ∧
      loopTokens.drop 10 <:+ loopTokens ∧
      (Stmt.read (loopTokens.drop 10)).rest = loopTokens.drop 10 ∧
      (Stmt.readAll (loopTokens.drop 10)).rest = (Stmt.readAll (loopTokens.drop 12)).rest ∧
      Call.calls ⟨.statements, loopTokens.drop 10⟩ =
        [⟨.statement, loopTokens.drop 10⟩, ⟨.statements, loopTokens.drop 12⟩] ∧
      -- the parameters: `int a ,`, then `int b`
      (Param.readSome (loopTokens.drop 3)).rest = (Param.readSome (loopTokens.drop 6)).rest ∧
      Call.calls ⟨.someParams, loopTokens.drop 3⟩ = [⟨.someParams, loopTokens.drop 6⟩] ∧
      -- the operators: `+ 2`, then none
      (∀ left, (Expr.readChain 1 left (loopTokens.drop 15)).result =
        .ok (.binary .add left (.number "2"))) ∧
      Call.calls ⟨.chain 1, loopTokens.drop 15⟩ =
        [⟨.level 1, loopTokens.drop 16⟩, ⟨.chain 1, loopTokens.drop 17⟩] ∧
      -- the arguments: `, -(3)`, then none
      Call.calls ⟨.moreArguments, loopTokens.drop 17⟩ = [⟨.firstArgument, loopTokens.drop 18⟩] ∧
      Call.calls ⟨.firstArgument, loopTokens.drop 18⟩ =
        [⟨.level BinaryOp.levels, loopTokens.drop 18⟩, ⟨.moreArguments, loopTokens.drop 22⟩] ∧
      -- an expression in an expression: `3` in `-(3)`
      Relation.TransGen Call.Calls ⟨.level BinaryOp.levels, loopTokens.drop 18⟩
        ⟨.level BinaryOp.levels, loopTokens.drop 20⟩ ∧
      (loopTokens.drop 20).length < (loopTokens.drop 18).length ∧
      (left loopTokens 1).length < loopTokens.length ∧
      (readRepeatedly 26 loopTokens)[25]? = some ⟨[], [], []⟩ := by
  obtain ⟨hreadings, -, hwithin, hrounds, hclauses, hcycle, -, htakes, hended⟩ :=
    readings_progress loopTokens
  -- from the program into its block
  have hprogram : Call.calls ⟨.program, loopTokens⟩ =
      [⟨.function, loopTokens⟩, ⟨.program, []⟩] := by cbv
  have htype : TypeName.ofToken ⟨.keyword, "int", ⟨1, 1⟩⟩ = .ok .int := rfl
  have hcallee : (expectKind .identifier (loopTokens.drop 1)).result =
      .ok ⟨.identifier, "f", ⟨1, 5⟩⟩ := rfl
  have hcalleeRest : (expectKind .identifier (loopTokens.drop 1)).rest = loopTokens.drop 2 := rfl
  have hparams : (Param.readList (loopTokens.drop 2)).result =
      .ok [⟨.int, ⟨"a", 1⟩⟩, ⟨.int, ⟨"b", 1⟩⟩] := by cbv
  have hparamsRest : (Param.readList (loopTokens.drop 2)).rest = loopTokens.drop 9 := by cbv
  have hfunction : Call.calls ⟨.function, loopTokens⟩ = _ :=
    hclauses.function htype (loopTokens.drop 1)
  rw [Reading.next_of_ok hcallee, hcalleeRest, Reading.next_of_ok hparams, hparamsRest]
    at hfunction
  have hblock : Call.calls ⟨.block, loopTokens.drop 9⟩ = [⟨.statements, loopTokens.drop 10⟩] :=
    (hrounds.block _).2
  have hreached := ((Relation.ReflTransGen.single (Call.calls_of_eq hprogram (by simp))).tail
    (Call.calls_of_eq hfunction (by simp))).tail
    (Call.calls_of_eq hblock (List.mem_singleton_self _))
  have hstray : (⟨.integer, "5", ⟨1, 23⟩⟩ : Token).is .separator Token.closeBrace = false := rfl
  obtain ⟨-, hstatement, hstatementCalls, -, -⟩ := hrounds.statement hstray (loopTokens.drop 11)
  -- one round of each of the other loops
  have hint : (⟨.keyword, "int", ⟨1, 7⟩⟩ : Token).is .keyword "int" = true := rfl
  have hname : (⟨.identifier, "a", ⟨1, 11⟩⟩ : Token).kind = .identifier := rfl
  have hcomma : (⟨.separator, ",", ⟨1, 12⟩⟩ : Token).is .separator "," = true := rfl
  obtain ⟨hparameter, hparameterCalls, -⟩ :=
    hrounds.parameter hint hname hcomma (loopTokens.drop 6)
  have hplus : (⟨.operator, "+", ⟨1, 31⟩⟩ : Token).binaryOp? = some .add := rfl
  have hoperand : (Expr.readLevel BinaryOp.add.level (loopTokens.drop 16)).result =
      .ok (.number "2") := by cbv
  have hoperandRest : (Expr.readLevel BinaryOp.add.level (loopTokens.drop 16)).rest =
      loopTokens.drop 17 := by cbv
  have hoperator : ∀ left, (Expr.readChain 1 left (loopTokens.drop 15)).result =
      .ok (.binary .add left (.number "2")) := by
    intro left
    have hround := (hrounds.operator hplus left (loopTokens.drop 16)).1
    have hlast : Expr.readChain BinaryOp.add.level (.binary .add left (.number "2"))
        (loopTokens.drop 17) = .done _ := (hrounds.lastOperand (by decide) _).1
    refine (congrArg Reading.result hround).trans ?_
    rw [Reading.result_after, Reading.andThen_of_ok hoperand, Reading.result_widen, hoperandRest,
      hlast]
    rfl
  have hoperatorCalls := (hrounds.operator hplus (.string "") (loopTokens.drop 16)).2.1
  rw [Reading.next_of_ok hoperand, hoperandRest] at hoperatorCalls
  have hcomma' : (⟨.separator, ",", ⟨1, 34⟩⟩ : Token).is .separator "," = true := rfl
  have hargument : (Expr.read (loopTokens.drop 18)).result = .ok (.unary .neg (.number "3")) := by
    cbv
  have hargumentRest : (Expr.read (loopTokens.drop 18)).rest = loopTokens.drop 22 := by cbv
  have hargumentCalls := (hrounds.argument (loopTokens.drop 18)).2
  rw [Reading.next_of_ok hargument, hargumentRest] at hargumentCalls
  -- down to the minus, past it and into the parenthesis
  have hminus : (⟨.operator, "-", ⟨1, 36⟩⟩ : Token).unaryOp? = some .neg := rfl
  have hopen : (⟨.separator, "(", ⟨1, 37⟩⟩ : Token).is .separator "(" = true := rfl
  have hsign := (hrounds.sign hminus (loopTokens.drop 19)).2.1
  have hlastSign := (hrounds.lastSign (t := ⟨.separator, "(", ⟨1, 37⟩⟩) rfl (loopTokens.drop 20)).2
  have hparenthesis := (hrounds.parenthesis hopen (loopTokens.drop 20)).2
  have hagain := (((Call.transGen_unary BinaryOp.levels (loopTokens.drop 18)).tail
    (Call.calls_of_eq hsign (List.mem_singleton_self _))).tail
    (Call.calls_of_eq hlastSign (List.mem_singleton_self _))).tail
    (Call.calls_of_eq hparenthesis (List.mem_singleton_self _))
  have hended' : (readRepeatedly 26 loopTokens)[25]? = some (read (left loopTokens 25)) := by
    rw [hreadings]
    rfl
  refine ⟨by cbv, hreached, (hwithin 0 _ hreached).1, rfl, hstatement, hstatementCalls,
    congrArg Reading.rest hparameter, hparameterCalls, hoperator, hoperatorCalls,
    (hrounds.comma hcomma' _).2.1, hargumentCalls, hagain, hcycle _ _ hagain rfl,
    htakes 0 (List.cons_ne_nil _ _), ?_⟩
  rw [hended', hended 26 25 _ hended' (Nat.le_refl _)]

end Program

end MiniC
