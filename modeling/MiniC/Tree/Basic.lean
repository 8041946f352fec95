import MiniC.Tree.Operator

/-!
# Programs as trees

A program is a list of functions; a function body is a list of statements, and statements hold
expressions. Every name that a message may have to point at carries the line it was written on.
-/

namespace MiniC

/-- A name as it occurs in the source, with its line. -/
structure Ident where
  name : String
  line : Nat
  deriving DecidableEq, Repr

/-- Expressions. Number literals are kept as written, and a string literal is kept without its
    quotes. -/
inductive Expr where
  | binary (op : BinaryOp) (left right : Expr)
  | unary (op : UnaryOp) (operand : Expr)
  | number (text : String)
  | ident (id : Ident)
  | string (value : String)
  | call (callee : Ident) (args : List Expr)
  deriving Repr

/-- The declaration of a variable, with its first value if it is given one. -/
structure Declaration where
  target : Ident
  init : Option Expr
  deriving Repr

/-- The assignment of a value to a variable. -/
structure Assignment where
  target : Ident
  value : Expr
  deriving Repr

/-- Statements. An absent `else` differs from an empty one. -/
inductive Stmt where
  | declare (decl : Declaration)
  | assign (assignment : Assignment)
  | call (callee : Ident) (args : List Expr)
  | branch (cond : Expr) (yes : List Stmt) (no : Option (List Stmt))
  | loop (init : Declaration) (cond : Expr) (step : Assignment) (body : List Stmt)
  | ret (value : Option Expr) (line : Nat)
  deriving Repr

/-- The statements between two braces. -/
abbrev Block := List Stmt

/-- The types a function can have. -/
inductive TypeName where
  | int
  | void
  deriving DecidableEq, Repr

/-- A parameter of a function. -/
structure Param where
  type : TypeName
  id : Ident
  deriving DecidableEq, Repr

/-- A function definition. -/
structure Function where
  returnType : TypeName
  id : Ident
  params : List Param
  body : Block
  deriving Repr

/-- A program: its functions in source order. -/
abbrev Program := List Function

end MiniC
