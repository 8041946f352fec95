import MiniC.Tree.Basic

/-!
# Trees up to line numbers

Two trees say the same when they differ in line numbers only, that is, when they are equal once
every line is set to 0.
-/

namespace MiniC

/-! ## 1. Setting the lines to 0 -/

/-- The name alone. -/
def Ident.withoutLine (id : Ident) : Ident := { id with line := 0 }

theorem Ident.withoutLine_eq_iff {id id' : Ident} :
    id.withoutLine = id'.withoutLine ↔ id.name = id'.name := by
  simp [withoutLine]

mutual

/-- The expression with every line set to 0. -/
def Expr.withoutLines : Expr → Expr
  | .binary op left right => .binary op left.withoutLines right.withoutLines
  | .unary op operand => .unary op operand.withoutLines
  | .number text => .number text
  | .ident id => .ident id.withoutLine
  | .string value => .string value
  | .call callee args => .call callee.withoutLine (Expr.withoutLinesAll args)

/-- The expressions with every line set to 0. -/
def Expr.withoutLinesAll : List Expr → List Expr
  | [] => []
  | e :: es => e.withoutLines :: Expr.withoutLinesAll es

end

/-- The declaration with every line set to 0. -/
def Declaration.withoutLines (decl : Declaration) : Declaration :=
  ⟨decl.target.withoutLine, decl.init.map Expr.withoutLines⟩

/-- The assignment with every line set to 0. -/
def Assignment.withoutLines (a : Assignment) : Assignment :=
  ⟨a.target.withoutLine, a.value.withoutLines⟩

mutual

/-- The statement with every line set to 0. -/
def Stmt.withoutLines : Stmt → Stmt
  | .declare decl => .declare decl.withoutLines
  | .assign a => .assign a.withoutLines
  | .call callee args => .call callee.withoutLine (Expr.withoutLinesAll args)
  | .branch cond yes no =>
    .branch cond.withoutLines (Stmt.withoutLinesAll yes) (Stmt.withoutLinesElse no)
  | .loop init cond step body =>
    .loop init.withoutLines cond.withoutLines step.withoutLines (Stmt.withoutLinesAll body)
  | .ret value _ => .ret (value.map Expr.withoutLines) 0

/-- The statements with every line set to 0. -/
def Stmt.withoutLinesAll : List Stmt → List Stmt
  | [] => []
  | stmt :: stmts => stmt.withoutLines :: Stmt.withoutLinesAll stmts

/-- An `else` block with every line set to 0, if there is one. -/
def Stmt.withoutLinesElse : Option (List Stmt) → Option (List Stmt)
  | none => none
  | some stmts => some (Stmt.withoutLinesAll stmts)

end

/-- The parameter with its line set to 0. -/
def Param.withoutLine (param : Param) : Param := ⟨param.type, param.id.withoutLine⟩

/-- The function with every line set to 0. -/
def Function.withoutLines (f : Function) : Function :=
  ⟨f.returnType, f.id.withoutLine, f.params.map Param.withoutLine, Stmt.withoutLinesAll f.body⟩

/-- The program with every line set to 0. -/
def Program.withoutLines (program : Program) : Program := program.map Function.withoutLines

end MiniC
