import MiniC.Text.Dump
import MiniC.Text.Quoted
import MiniC.Tree.Basic

/-!
# Writing out a syntax tree

The dump of a program shows every node of its tree with the node's kind, its named parts in a
fixed order, and the lines of its names.
-/

namespace MiniC

open Text

/-- The name of a binary operator in dumps. -/
def BinaryOp.dumpName : BinaryOp → String
  | .logicalOr => "LogicalOr"
  | .logicalAnd => "LogicalAnd"
  | .equal => "Equal"
  | .notEqual => "NotEqual"
  | .lessThan => "LessThan"
  | .lessEqual => "LessEqual"
  | .greaterThan => "GreaterThan"
  | .greaterEqual => "GreaterEqual"
  | .add => "Add"
  | .sub => "Sub"
  | .mul => "Mul"
  | .div => "Div"

/-- The name of a unary operator in dumps. -/
def UnaryOp.dumpName : UnaryOp → String
  | .neg => "Neg"
  | .not => "Not"

/-- The name of a type in dumps. -/
def TypeName.dumpName : TypeName → String
  | .int => "Int"
  | .void => "Void"

/-- A text, quoted. -/
def dumpText (text : String) : Dump := .atom (quote text)

/-- A number in decimal. -/
def dumpNat (n : Nat) : Dump := .atom (toString n)

/-- A name with its line. -/
def Ident.dump (id : Ident) : Dump :=
  .record "Identifier" [("name", dumpText id.name), ("line", dumpNat id.line)]

/-- A call, given the dumps of its arguments. -/
def dumpCall (callee : Ident) (args : List Dump) : Dump :=
  .record "FunctionCall"
    [("name", dumpText callee.name), ("args", .list args), ("line", dumpNat callee.line)]

mutual

/-- The dump of an expression. -/
def Expr.dump : Expr → Dump
  | .binary op left right =>
    .tuple "Binary" [.record "BinaryOp"
      [("op", .atom op.dumpName), ("left", left.dump), ("right", right.dump)]]
  | .unary op operand =>
    .tuple "Unary" [.record "UnaryOp" [("op", .atom op.dumpName), ("operand", operand.dump)]]
  | .number text => .tuple "Number" [.record "NumberLiteral" [("value", dumpText text)]]
  | .ident id => .tuple "Ident" [id.dump]
  | .string value => .tuple "String" [.record "StringLiteral" [("value", dumpText value)]]
  | .call callee args => .tuple "Call" [dumpCall callee (Expr.dumpAll args)]

/-- The dumps of expressions. -/
def Expr.dumpAll : List Expr → List Dump
  | [] => []
  | e :: es => e.dump :: Expr.dumpAll es

end

/-- The dump of a declaration. -/
def Declaration.dump (decl : Declaration) : Dump :=
  .record "VariableDeclaration"
    [("name", dumpText decl.target.name), ("init", .option (decl.init.map Expr.dump)),
      ("line", dumpNat decl.target.line)]

/-- The dump of an assignment. -/
def Assignment.dump (assignment : Assignment) : Dump :=
  .record "Assignment" [("target", assignment.target.dump), ("value", assignment.value.dump)]

/-- A block, given the dumps of its statements. -/
def dumpBlock (stmts : List Dump) : Dump := .tuple "Block" [.list stmts]

mutual

/-- The dump of a statement. -/
def Stmt.dump : Stmt → Dump
  | .declare decl => .tuple "VariableDeclaration" [decl.dump]
  | .assign assignment => .tuple "Assignment" [assignment.dump]
  | .call callee args => .tuple "Call" [dumpCall callee (Expr.dumpAll args)]
  | .branch cond yes no =>
    .tuple "If" [.record "IfStatement"
      [("condition", cond.dump), ("then_block", dumpBlock (Stmt.dumpAll yes)),
        ("else_block", .option (Stmt.dumpElse no))]]
  | .loop init cond step body =>
    .tuple "For" [.record "ForLoop"
      [("init", init.dump), ("condition", cond.dump), ("increment", step.dump),
        ("body", dumpBlock (Stmt.dumpAll body))]]
  | .ret value line =>
    .tuple "Return" [.record "ReturnStatement"
      [("value", .option (value.map Expr.dump)), ("line", dumpNat line)]]

/-- The dumps of statements. -/
def Stmt.dumpAll : List Stmt → List Dump
  | [] => []
  | stmt :: stmts => stmt.dump :: Stmt.dumpAll stmts

/-- The dump of an `else` block, if there is one. -/
def Stmt.dumpElse : Option (List Stmt) → Option Dump
  | none => none
  | some stmts => some (dumpBlock (Stmt.dumpAll stmts))

end

/-- The dump of a parameter. -/
def Param.dump (param : Param) : Dump :=
  .record "Param"
    [("ty", .atom param.type.dumpName), ("name", dumpText param.id.name),
      ("line", dumpNat param.id.line)]

/-- The dump of a function. -/
def Function.dump (f : Function) : Dump :=
  .record "FunctionDefinition"
    [("return_type", .atom f.returnType.dumpName), ("name", dumpText f.id.name),
      ("params", .list (f.params.map Param.dump)), ("body", dumpBlock (Stmt.dumpAll f.body)),
      ("line", dumpNat f.id.line)]

/-- The dump of a program. -/
def Program.dump (program : Program) : Dump :=
  .tuple "Program" [.list (program.map Function.dump)]

end MiniC
