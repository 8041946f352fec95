/-!
# Operators

The binary operators, their symbols and how tightly they bind, and the two unary operators.
-/

namespace MiniC

/-! ## 1. Binary operators -/

/-- The binary operators. -/
inductive BinaryOp where
  | logicalOr
  | logicalAnd
  | equal
  | notEqual
  | lessThan
  | lessEqual
  | greaterThan
  | greaterEqual
  | add
  | sub
  | mul
  | div
  deriving DecidableEq, Repr

namespace BinaryOp

/-- Every binary operator. -/
def all : List BinaryOp :=
  [.logicalOr, .logicalAnd, .equal, .notEqual, .lessThan, .lessEqual, .greaterThan,
    .greaterEqual, .add, .sub, .mul, .div]

/-- The operator as written. -/
def symbol : BinaryOp → String
  | .logicalOr => "||"
  | .logicalAnd => "&&"
  | .equal => "=="
  | .notEqual => "!="
  | .lessThan => "<"
  | .lessEqual => "<="
  | .greaterThan => ">"
  | .greaterEqual => ">="
  | .add => "+"
  | .sub => "-"
  | .mul => "*"
  | .div => "/"

/-- The operator with that symbol, if there is one. -/
def ofSymbol? (symbol : String) : Option BinaryOp := all.find? (·.symbol = symbol)

@[simp] theorem ofSymbol?_symbol (op : BinaryOp) : ofSymbol? op.symbol = some op := by
  cases op <;> decide

theorem symbol_of_ofSymbol? {symbol : String} {op : BinaryOp} (h : ofSymbol? symbol = some op) :
    op.symbol = symbol := by
  simpa using List.find?_some h

/-- How tightly the operator binds: operators of level 0 bind tightest. Operators of one level
    associate to the left. -/
def level : BinaryOp → Nat
  | .mul | .div => 0
  | .add | .sub => 1
  | .equal | .notEqual | .lessThan | .lessEqual | .greaterThan | .greaterEqual => 2
  | .logicalAnd => 3
  | .logicalOr => 4

/-- The number of levels. -/
def levels : Nat := 5

theorem level_lt_levels (op : BinaryOp) : op.level < levels := by
  cases op <;> decide

end BinaryOp

/-! ## 2. Unary operators -/

/-- The unary operators: arithmetic negation and logical negation. -/
inductive UnaryOp where
  | neg
  | not
  deriving DecidableEq, Repr

namespace UnaryOp

/-- Every unary operator. -/
def all : List UnaryOp := [.neg, .not]

/-- The operator as written. -/
def symbol : UnaryOp → String
  | .neg => "-"
  | .not => "!"

/-- The operator with that symbol, if there is one. -/
def ofSymbol? (symbol : String) : Option UnaryOp := all.find? (·.symbol = symbol)

@[simp] theorem ofSymbol?_symbol (op : UnaryOp) : ofSymbol? op.symbol = some op := by
  cases op <;> decide

theorem symbol_of_ofSymbol? {symbol : String} {op : UnaryOp} (h : ofSymbol? symbol = some op) :
    op.symbol = symbol := by
  simpa using List.find?_some h

end UnaryOp

end MiniC
