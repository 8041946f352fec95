import MiniC.Grammar.Expr

/-!
# Reading the clauses of statements

The parts of statements that hold no block: declarations, assignments, the value of a `return`,
and the parenthesised heads of `if` and `for`. Each reader starts after the token that announced
its clause.
-/

namespace MiniC

/-- An initial value after `=`, if there is one. -/
def Expr.readInit : (ts : List Token) → Reading ts (Option Expr)
  | [] => .done none
  | t :: ts =>
    if t.is .operator "=" then .after t <| (Expr.read ts).map some
    else .done none

/-- A declaration after its `int`, up to and including the semicolon. -/
def Declaration.read (ts : List Token) : Reading ts Declaration :=
  (expectKind .identifier ts).andThen fun name rest _ =>
    (Expr.readInit rest).andThen fun init rest _ =>
      (expectSeparator ";" rest).map fun _ => ⟨name.ident, init⟩

/-- An assignment to `target`, from its `=` on. -/
def Assignment.readTo (target : Ident) (ts : List Token) : Reading ts Assignment :=
  (expect .operator "=" ts).andThen fun _ rest _ =>
    (Expr.read rest).map fun value => ⟨target, value⟩

/-- An assignment. -/
def Assignment.read (ts : List Token) : Reading ts Assignment :=
  (expectKind .identifier ts).andThen fun name rest _ => Assignment.readTo name.ident rest

/-- The value of a `return`, if it has one, and the semicolon. -/
def Expr.readReturned (ts : List Token) : Reading ts (Option Expr) :=
  if startsWith .separator ";" ts then (expectSeparator ";" ts).map fun _ => none
  else (Expr.read ts).andThen fun value rest _ =>
    (expectSeparator ";" rest).map fun _ => some value

/-- The condition of an `if`, in its parentheses. -/
def Expr.readCondition (ts : List Token) : Reading ts Expr :=
  (expectSeparator "(" ts).andThen fun _ rest _ =>
    (Expr.read rest).andThen fun cond rest _ =>
      (expectSeparator ")" rest).map fun _ => cond

/-- The head of a `for`: what it declares, how long it runs, and how it steps. The step is a bare
    assignment without a semicolon. -/
structure LoopHead where
  init : Declaration
  cond : Expr
  step : Assignment
  deriving Repr

/-- The head of a `for`, in its parentheses. -/
def LoopHead.read (ts : List Token) : Reading ts LoopHead :=
  (expectSeparator "(" ts).andThen fun _ rest _ =>
    (expect .keyword "int" rest).andThen fun _ rest _ =>
      (Declaration.read rest).andThen fun init rest _ =>
        (Expr.read rest).andThen fun cond rest _ =>
          (expectSeparator ";" rest).andThen fun _ rest _ =>
            (Assignment.read rest).andThen fun step rest _ =>
              (expectSeparator ")" rest).map fun _ => ⟨init, cond, step⟩

end MiniC
