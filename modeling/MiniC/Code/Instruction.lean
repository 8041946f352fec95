import MiniC.Tree.Operator

/-!
# Three-address code

An instruction names at most two operands and a destination. Operands and destinations are words:
the text of a literal, the name of a variable, or the name of a temporary. `Instruction.text` is
the line printed for an instruction.
-/

namespace MiniC

/-- The instructions. -/
inductive Instruction where
  | binary (dest left : String) (op : BinaryOp) (right : String)
  | unary (dest : String) (op : UnaryOp) (operand : String)
  | copy (dest source : String)
  /-- Hands over an argument of the next call. -/
  | param (value : String)
  /-- Calls `callee` with the last `argc` arguments handed over. -/
  | call (dest callee : String) (argc : Nat)
  | label (name : String)
  | goto (target : String)
  | ifFalse (cond target : String)
  | funcBegin (name : String)
  | funcEnd (name : String)
  | ret (value : Option String)
  deriving DecidableEq, Repr

namespace Instruction

/-- The instruction as printed. -/
def text : Instruction → String
  | .binary dest left op right => dest ++ " = " ++ left ++ " " ++ op.symbol ++ " " ++ right
  | .unary dest op operand => dest ++ " = " ++ op.symbol ++ operand
  | .copy dest source => dest ++ " = " ++ source
  | .param value => "param " ++ value
  | .call dest callee argc => dest ++ " = call " ++ callee ++ ", " ++ toString argc
  | .label name => name ++ ":"
  | .goto target => "goto " ++ target
  | .ifFalse cond target => "ifFalse " ++ cond ++ " goto " ++ target
  | .funcBegin name => "func begin " ++ name
  | .funcEnd name => "func end " ++ name
  | .ret (some value) => "return " ++ value
  | .ret none => "return"

end Instruction

/-- Three-address code. -/
abbrev Code := List Instruction

end MiniC
