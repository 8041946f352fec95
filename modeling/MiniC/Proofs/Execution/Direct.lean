import MiniC.Tree.Basic

/-!
# Running the tree

What it means to run a function straight from its tree. The values, the literals, the operators and
the test for falsity are whatever an `Interpretation` says; calls are answered from outside, and
every call that was made is kept in the history, so that two runs can be compared by what they ask.

Variables live in an environment that follows the scopes: a declaration puts its variable on top,
without a value until one is given, and leaving a scope takes its variables off again. Loops run for
a limited number of rounds; a run that reaches the limit is `unfinished`.
-/

namespace MiniC

universe u v

/-! ## 1. Interpretations -/

/-- A call that was made, and its answer. -/
structure CallRecord (Value : Type u) where
  callee : String
  args : List Value
  answer : Value
  deriving DecidableEq, Repr

/-- The calls made so far, the first one first. -/
abbrev History (Value : Type u) := List (CallRecord Value)

/-- What literals, operators, conditions and calls mean. An operator may be undefined on its
    operands. -/
structure Interpretation (Value : Type u) where
  number : String → Value
  string : String → Value
  binary : BinaryOp → Value → Value → Option Value
  unary : UnaryOp → Value → Option Value
  isFalse : Value → Bool
  /-- The answer to a call, given the calls before it, the callee and the arguments. -/
  answer : History Value → String → List Value → Value

/-! ## 2. Results -/

/-- How running a part of a function ends, with the calls made until then. -/
inductive Result (Value : Type u) (α : Type v) where
  /-- The part ran through. -/
  | done (value : α) (history : History Value)
  /-- The function returned. -/
  | returned (value : Option Value) (history : History Value)
  /-- An operator is undefined on its operands. -/
  | stuck (history : History Value)
  /-- A variable is read that was given no value. -/
  | unset (history : History Value)
  /-- A name is used for which there is no variable. -/
  | unbound (history : History Value)
  /-- A loop took all the rounds it was allowed. -/
  | unfinished (history : History Value)
  deriving Repr

namespace Result

variable {Value : Type u} {α β : Type v}

/-- Goes on when the part ran through. -/
def bind (r : Result Value α) (next : α → History Value → Result Value β) : Result Value β :=
  match r with
  | .done value history => next value history
  | .returned value history => .returned value history
  | .stuck history => .stuck history
  | .unset history => .unset history
  | .unbound history => .unbound history
  | .unfinished history => .unfinished history

/-- Runs rounds until one of them gives no next state, at most `rounds` of them. -/
def iterate (round : α → History Value → Result Value (Option α)) :
    Nat → α → History Value → Result Value α
  | 0, _, history => .unfinished history
  | rounds + 1, state, history =>
    (round state history).bind fun next history =>
      match next with
      | none => .done state history
      | some state => iterate round rounds state history

end Result

/-! ## 3. Environments -/

/-- The variables in force, the innermost first, each with its value if it has one. -/
abbrev Env (Value : Type u) := List (String × Option Value)

namespace Env

variable {Value : Type u}

/-- The names of the variables. -/
def names (env : Env Value) : List String := env.map Prod.fst

/-- The environment with a new value for the innermost variable of that name, if there is one. -/
def set? (x : String) (value : Value) : Env Value → Option (Env Value)
  | [] => none
  | (y, old) :: env =>
    if y = x then some ((y, some value) :: env)
    else (set? x value env).map ((y, old) :: ·)

/-- The environment without the variables that were not there in `outer`. -/
def leave (env outer : Env Value) : Env Value := env.drop (env.length - outer.length)

end Env

/-- The result of a scope when it is left: what it declared is forgotten. -/
def Result.leaving {Value : Type u} (r : Result Value (Env Value)) (outer : Env Value) :
    Result Value (Env Value) :=
  r.bind fun inner history => .done (inner.leave outer) history

/-! ## 4. Running -/

variable {Value : Type u}

mutual

/-- The value of an expression; the operands of an operation are evaluated from left to right. -/
def Expr.evaluate (I : Interpretation Value) (env : Env Value) :
    Expr → History Value → Result Value Value
  | .number text, history => .done (I.number text) history
  | .string value, history => .done (I.string value) history
  | .ident id, history =>
    match env.lookup id.name with
    | some (some value) => .done value history
    | some none => .unset history
    | none => .unbound history
  | .binary op left right, history =>
    (left.evaluate I env history).bind fun a history =>
      (right.evaluate I env history).bind fun b history =>
        match I.binary op a b with
        | some value => .done value history
        | none => .stuck history
  | .unary op operand, history =>
    (operand.evaluate I env history).bind fun a history =>
      match I.unary op a with
      | some value => .done value history
      | none => .stuck history
  | .call callee args, history =>
    (Expr.evaluateAll I env args history).bind fun values history =>
      let answer := I.answer history callee.name values
      .done answer (history ++ [⟨callee.name, values, answer⟩])

/-- The values of expressions, evaluated one after the other. -/
def Expr.evaluateAll (I : Interpretation Value) (env : Env Value) :
    List Expr → History Value → Result Value (List Value)
  | [], history => .done [] history
  | e :: es, history =>
    (e.evaluate I env history).bind fun value history =>
      (Expr.evaluateAll I env es history).bind fun values history =>
        .done (value :: values) history

end

/-- A declaration: its variable is in force, without a value, while the initial value is found. -/
def Declaration.execute (I : Interpretation Value) (env : Env Value) (decl : Declaration)
    (history : History Value) : Result Value (Env Value) :=
  match decl.init with
  | none => .done ((decl.target.name, none) :: env) history
  | some init =>
    (init.evaluate I ((decl.target.name, none) :: env) history).bind fun value history =>
      .done ((decl.target.name, some value) :: env) history

/-- An assignment to the innermost variable of that name. -/
def Assignment.execute (I : Interpretation Value) (env : Env Value) (a : Assignment)
    (history : History Value) : Result Value (Env Value) :=
  (a.value.evaluate I env history).bind fun value history =>
    match env.set? a.target.name value with
    | some env => .done env history
    | none => .unbound history

mutual

/-- The environment after a statement, loops being allowed `rounds` rounds. -/
def Stmt.execute (I : Interpretation Value) (rounds : Nat) :
    Stmt → Env Value → History Value → Result Value (Env Value)
  | .declare decl, env, history => decl.execute I env history
  | .assign a, env, history => a.execute I env history
  | .call callee args, env, history =>
    ((Expr.call callee args).evaluate I env history).bind fun _ history => .done env history
  | .ret none _, _, history => .returned none history
  | .ret (some value) _, env, history =>
    (value.evaluate I env history).bind fun value history => .returned (some value) history
  | .branch cond yes no, env, history =>
    (cond.evaluate I env history).bind fun value history =>
      if I.isFalse value then Stmt.executeElse I rounds no env history
      else (Stmt.executeAll I rounds yes env history).leaving env
  | .loop init cond step body, env, history =>
    Result.leaving
      ((init.execute I env history).bind
        (Result.iterate
          (fun head history =>
            (cond.evaluate I head history).bind fun value history =>
              if I.isFalse value then .done none history
              else
                ((Stmt.executeAll I rounds body head history).leaving head).bind
                  fun head history =>
                    (step.execute I head history).bind fun head history =>
                      .done (some head) history)
          rounds))
      env

/-- The environment after statements, run one after the other. -/
def Stmt.executeAll (I : Interpretation Value) (rounds : Nat) :
    List Stmt → Env Value → History Value → Result Value (Env Value)
  | [], env, history => .done env history
  | stmt :: stmts, env, history =>
    (stmt.execute I rounds env history).bind fun env history =>
      Stmt.executeAll I rounds stmts env history

/-- The environment after an `else` block, if there is one. -/
def Stmt.executeElse (I : Interpretation Value) (rounds : Nat) :
    Option (List Stmt) → Env Value → History Value → Result Value (Env Value)
  | none, env, history => .done env history
  | some stmts, env, history => (Stmt.executeAll I rounds stmts env history).leaving env

end

/-- **Running a function**: its parameters have the values that `frame` gives them. -/
def Function.execute (I : Interpretation Value) (rounds : Nat) (f : Function)
    (frame : String → Option Value) (history : History Value) : Result Value (Env Value) :=
  Stmt.executeAll I rounds f.body (f.params.map fun p => (p.id.name, frame p.id.name)) history

/-! ## 5. More rounds -/

namespace Result

/-- The result `r'` says what `r` says, unless `r` ran out of rounds. -/
def Upto {α : Type v} (r r' : Result Value α) : Prop := r' = r ∨ ∃ calls, r = .unfinished calls

variable {α β : Type v}

theorem Upto.bind {r r' : Result Value α} {next next' : α → History Value → Result Value β}
    (h : r.Upto r') (hnext : ∀ value history, (next value history).Upto (next' value history)) :
    (r.bind next).Upto (r'.bind next') := by
  rcases h with rfl | ⟨calls, rfl⟩
  · cases r' with
    | done value history => exact hnext value history
    | returned | stuck | unset | unbound | unfinished => exact .inl rfl
  · exact .inr ⟨calls, rfl⟩

theorem Upto.iterate {round round' : α → History Value → Result Value (Option α)}
    (h : ∀ state history, (round state history).Upto (round' state history)) :
    ∀ {m n : Nat}, m ≤ n → ∀ state history,
      (iterate round m state history).Upto (iterate round' n state history) := by
  intro m
  induction m with
  | zero => exact fun _ state history => .inr ⟨history, rfl⟩
  | succ m ih =>
    intro n hle state history
    match n with
    | 0 => omega
    | n + 1 =>
      refine (h state history).bind fun next history => ?_
      cases next with
      | none => exact .inl rfl
      | some state => exact ih (by omega) state history

end Result

mutual

theorem Stmt.execute_upto (I : Interpretation Value) {m n : Nat} (hle : m ≤ n) : (stmt : Stmt) →
    ∀ env history, (stmt.execute I m env history).Upto (stmt.execute I n env history)
  | .declare _, _, _ | .assign _, _, _ | .call _ _, _, _ => .inl rfl
  | .ret none _, _, _ | .ret (some _) _, _, _ => .inl rfl
  | .branch cond yes no, env, history => by
    rw [Stmt.execute, Stmt.execute]
    refine Result.Upto.bind (.inl rfl) fun value history => ?_
    split
    · exact Stmt.executeElse_upto I hle no env history
    · exact (Stmt.executeAll_upto I hle yes env history).bind fun _ _ => .inl rfl
  | .loop init cond step body, env, history => by
    rw [Stmt.execute, Stmt.execute]
    refine Result.Upto.bind ?_ fun _ _ => .inl rfl
    refine Result.Upto.bind (.inl rfl) (Result.Upto.iterate (fun head history => ?_) hle)
    refine Result.Upto.bind (.inl rfl) fun value history => ?_
    split
    · exact .inl rfl
    · refine Result.Upto.bind ?_ fun _ _ => .inl rfl
      exact (Stmt.executeAll_upto I hle body head history).bind fun _ _ => .inl rfl

theorem Stmt.executeAll_upto (I : Interpretation Value) {m n : Nat} (hle : m ≤ n) :
    (stmts : List Stmt) → ∀ env history,
      (Stmt.executeAll I m stmts env history).Upto (Stmt.executeAll I n stmts env history)
  | [], _, _ => .inl rfl
  | stmt :: stmts, env, history => by
    rw [Stmt.executeAll, Stmt.executeAll]
    exact (Stmt.execute_upto I hle stmt env history).bind fun env history =>
      Stmt.executeAll_upto I hle stmts env history

theorem Stmt.executeElse_upto (I : Interpretation Value) {m n : Nat} (hle : m ≤ n) :
    (no : Option (List Stmt)) → ∀ env history,
      (Stmt.executeElse I m no env history).Upto (Stmt.executeElse I n no env history)
  | none, _, _ => .inl rfl
  | some stmts, env, history => by
    rw [Stmt.executeElse, Stmt.executeElse]
    exact (Stmt.executeAll_upto I hle stmts env history).bind fun _ _ => .inl rfl

end

/-- **A run that ends within its rounds ends the same way with more of them.** -/
theorem Function.execute_upto (I : Interpretation Value) {m n : Nat} (hle : m ≤ n) (f : Function)
    (frame : String → Option Value) (history : History Value) :
    (f.execute I m frame history).Upto (f.execute I n frame history) :=
  Stmt.executeAll_upto I hle f.body _ history

end MiniC
