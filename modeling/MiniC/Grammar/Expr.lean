import MiniC.Grammar.Reading
import MiniC.Tree.Basic

/-!
# Reading expressions

An expression is a chain of operands joined by operators of the loosest level, each operand a
chain of the next tighter level, down to unary expressions and primaries. A chain is folded to the
left. The recursion is on the number of tokens left; where a reader passes all its tokens on, it
passes them to one that stands lower in the grammar.
-/

namespace MiniC

/-- The name a token spells, with its line. -/
def Token.ident (t : Token) : Ident := ⟨t.text, t.line⟩

/-- The binary operator a token spells. -/
def Token.binaryOp? (t : Token) : Option BinaryOp :=
  if t.kind = .operator then BinaryOp.ofSymbol? t.text else none

/-- The unary operator a token spells. -/
def Token.unaryOp? (t : Token) : Option UnaryOp :=
  if t.kind = .operator then UnaryOp.ofSymbol? t.text else none

/-- The text between the quotes of a string literal. A text that is not quoted at both ends
    stays as it is. -/
def unquote (text : String) : String :=
  match text.toList with
  | '"' :: cs => if cs.getLast? = some '"' then String.ofList cs.dropLast else text
  | _ => text

namespace Expr

mutual

/-- A chain of operators below `level`. At level 0 there is none: a unary expression. -/
def readLevel (level : Nat) (ts : List Token) : Reading ts Expr :=
  match level with
  | 0 => readUnary ts
  | level + 1 => (readLevel level ts).andThen fun left rest _ => readChain level left rest
termination_by (ts.length, level + 2)
decreasing_by all_goals omega

/-- The rest of a chain of operators of `level`, after the operand `left`. -/
def readChain (level : Nat) (left : Expr) (ts : List Token) : Reading ts Expr :=
  match ts with
  | [] => .done left
  | t :: ts =>
    match t.binaryOp? with
    | none => .done left
    | some op =>
      if op.level = level then
        .after t <| (readLevel level ts).andThen fun right rest _ =>
          readChain level (.binary op left right) rest
      else .done left
termination_by (ts.length, 0)
decreasing_by all_goals rw [List.length_cons]; omega

/-- Unary operators, the outermost first, and a primary. -/
def readUnary (ts : List Token) : Reading ts Expr :=
  match ts with
  | [] => .fail .expression
  | t :: ts =>
    match t.unaryOp? with
    | some op => .after t <| (readUnary ts).map (.unary op)
    | none => readPrimary t ts
termination_by (ts.length, 1)
decreasing_by all_goals rw [List.length_cons]; omega

/-- A literal, a call, a name, or an expression in parentheses that starts with `t`. The reserved
    `printf` can only be called. A token that can start none of these is left in place. -/
def readPrimary (t : Token) (ts : List Token) : Reading (t :: ts) Expr :=
  match t.kind with
  | .integer | .float => .after t <| .done (.number t.text)
  | .string => .after t <| .done (.string (unquote t.text))
  | .identifier =>
    if startsWith .separator "(" ts then .after t <| (readArguments ts).map (.call t.ident)
    else .after t <| .done (.ident t.ident)
  | .keyword =>
    if t.text = "printf" && startsWith .separator "(" ts then
      .after t <| (readArguments ts).map (.call t.ident)
    else .fail .expression
  | .separator =>
    if t.text = "(" then
      .after t <| (readLevel BinaryOp.levels ts).andThen fun e rest _ =>
        (expectSeparator ")" rest).map fun _ => e
    else .fail .expression
  | .operator | .mismatch => .fail .expression
termination_by (ts.length + 1, 0)
decreasing_by all_goals omega

/-- The arguments of a call, from the opening parenthesis to the closing one. -/
def readArguments (ts : List Token) : Reading ts (List Expr) :=
  (expectSeparator "(" ts).andThen fun _ rest _ =>
    if startsWith .separator ")" rest then (expectSeparator ")" rest).map fun _ => []
    else readFirstArgument rest
termination_by (ts.length, BinaryOp.levels + 4)
decreasing_by all_goals omega

/-- An argument, and what `readMoreArguments` finds after it. -/
def readFirstArgument (ts : List Token) : Reading ts (List Expr) :=
  (readLevel BinaryOp.levels ts).andThen fun arg rest _ =>
    (readMoreArguments rest).map (arg :: ·)
termination_by (ts.length, BinaryOp.levels + 3)
decreasing_by all_goals omega

/-- More arguments after commas, and the closing parenthesis. -/
def readMoreArguments (ts : List Token) : Reading ts (List Expr) :=
  match ts with
  | [] => (expectSeparator ")" []).map fun _ => []
  | t :: ts =>
    if t.is .separator "," then .after t <| readFirstArgument ts
    else (expectSeparator ")" (t :: ts)).map fun _ => []
termination_by (ts.length, 0)
decreasing_by all_goals rw [List.length_cons]; omega

end

/-- **An expression, from the front of `ts`.** -/
def read (ts : List Token) : Reading ts Expr := readLevel BinaryOp.levels ts

end Expr

end MiniC
