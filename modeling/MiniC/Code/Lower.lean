import MiniC.Code.Instruction
import MiniC.Tree.Basic

/-!
# Lowering programs to three-address code

Every operation and every call puts its result into a temporary of its own, and every branch and
loop takes two labels of its own. Temporaries are `t1`, `t2`, … and labels `L1`, `L2`, …, numbered
over the whole program in the order in which they are taken. Lowering looks at no scope: a
variable keeps its name.
-/

namespace MiniC

/-- The name of temporary number `n`. -/
def temp (n : Nat) : String := "t" ++ toString n

/-- The name of label number `n`. -/
def label (n : Nat) : String := "L" ++ toString n

/-! ## 1. Expressions -/

/-- The code that computes a value, the word that then holds it, and the number of temporaries
    taken so far. -/
structure Computed where
  code : Code
  operand : String
  temps : Nat
  deriving DecidableEq, Repr

/-- The code that computes several values one after the other, and the words that hold them. -/
structure ComputedAll where
  code : Code
  operands : List String
  temps : Nat
  deriving DecidableEq, Repr

mutual

/-- The code for an expression when `temps` temporaries are taken. A literal and a name need no
    code; the operands of an operation are computed from left to right. -/
def Expr.lower (temps : Nat) : Expr → Computed
  | .number text => ⟨[], text, temps⟩
  | .string value => ⟨[], "\"" ++ value ++ "\"", temps⟩
  | .ident id => ⟨[], id.name, temps⟩
  | .binary op left right =>
    let a := left.lower temps
    let b := right.lower a.temps
    let dest := temp (b.temps + 1)
    ⟨a.code ++ b.code ++ [.binary dest a.operand op b.operand], dest, b.temps + 1⟩
  | .unary op operand =>
    let a := operand.lower temps
    let dest := temp (a.temps + 1)
    ⟨a.code ++ [.unary dest op a.operand], dest, a.temps + 1⟩
  | .call callee args =>
    let as := Expr.lowerAll temps args
    let dest := temp (as.temps + 1)
    ⟨as.code ++ as.operands.map .param ++ [.call dest callee.name as.operands.length], dest,
      as.temps + 1⟩

/-- The code for expressions, one after the other. -/
def Expr.lowerAll (temps : Nat) : List Expr → ComputedAll
  | [] => ⟨[], [], temps⟩
  | e :: es =>
    let a := e.lower temps
    let as := Expr.lowerAll a.temps es
    ⟨a.code ++ as.code, a.operand :: as.operands, as.temps⟩

end

/-! ## 2. Statements -/

/-- How many temporaries and labels are taken. -/
structure Supply where
  temps : Nat
  labels : Nat
  deriving DecidableEq, Repr

/-- A piece of code, and what is taken after it. -/
structure Fragment where
  code : Code
  supply : Supply
  deriving DecidableEq, Repr

/-- An initial value is copied to the variable; a declaration without one has no code. -/
def Declaration.lower (supply : Supply) (decl : Declaration) : Fragment :=
  match decl.init with
  | none => ⟨[], supply⟩
  | some init =>
    let a := init.lower supply.temps
    ⟨a.code ++ [.copy decl.target.name a.operand], { supply with temps := a.temps }⟩

/-- The value is copied to the target. -/
def Assignment.lower (supply : Supply) (assignment : Assignment) : Fragment :=
  let a := assignment.value.lower supply.temps
  ⟨a.code ++ [.copy assignment.target.name a.operand], { supply with temps := a.temps }⟩

mutual

/-- The code for a statement. A branch has both its labels and its jump whether or not it has an
    `else`; the body of a loop comes before its step. -/
def Stmt.lower (supply : Supply) : Stmt → Fragment
  | .declare decl => decl.lower supply
  | .assign assignment => assignment.lower supply
  | .call callee args =>
    let a := (Expr.call callee args).lower supply.temps
    ⟨a.code, { supply with temps := a.temps }⟩
  | .ret none _ => ⟨[.ret none], supply⟩
  | .ret (some value) _ =>
    let a := value.lower supply.temps
    ⟨a.code ++ [.ret (some a.operand)], { supply with temps := a.temps }⟩
  | .branch cond yes no =>
    let a := cond.lower supply.temps
    let otherwise := label (supply.labels + 1)
    let done := label (supply.labels + 2)
    let y := Stmt.lowerAll ⟨a.temps, supply.labels + 2⟩ yes
    let n := Stmt.lowerElse y.supply no
    ⟨a.code ++ [.ifFalse a.operand otherwise] ++ y.code ++ [.goto done, .label otherwise]
      ++ n.code ++ [.label done], n.supply⟩
  | .loop init cond step body =>
    let i := init.lower supply
    let top := label (i.supply.labels + 1)
    let done := label (i.supply.labels + 2)
    let a := cond.lower i.supply.temps
    let b := Stmt.lowerAll ⟨a.temps, i.supply.labels + 2⟩ body
    let s := step.lower b.supply
    ⟨i.code ++ [.label top] ++ a.code ++ [.ifFalse a.operand done] ++ b.code ++ s.code
      ++ [.goto top, .label done], s.supply⟩

/-- The code for statements, one after the other. -/
def Stmt.lowerAll (supply : Supply) : List Stmt → Fragment
  | [] => ⟨[], supply⟩
  | stmt :: stmts =>
    let a := stmt.lower supply
    let b := Stmt.lowerAll a.supply stmts
    ⟨a.code ++ b.code, b.supply⟩

/-- The code for an `else` block, if there is one. -/
def Stmt.lowerElse (supply : Supply) : Option (List Stmt) → Fragment
  | none => ⟨[], supply⟩
  | some stmts => Stmt.lowerAll supply stmts

end

/-! ## 3. Programs -/

/-- The code for a function: its body between the marks of its beginning and end. -/
def Function.lower (supply : Supply) (f : Function) : Fragment :=
  let a := Stmt.lowerAll supply f.body
  ⟨[.funcBegin f.id.name] ++ a.code ++ [.funcEnd f.id.name], a.supply⟩

/-- The code for functions, one after the other. -/
def Function.lowerAll (supply : Supply) : List Function → Fragment
  | [] => ⟨[], supply⟩
  | f :: fs =>
    let a := f.lower supply
    let b := Function.lowerAll a.supply fs
    ⟨a.code ++ b.code, b.supply⟩

/-- **The three-address code of a program.** -/
def Program.lower (program : Program) : Code := (Function.lowerAll ⟨0, 0⟩ program).code

end MiniC
