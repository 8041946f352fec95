import MiniC.Token.Basic

/-!
# What can be wrong with the grammar of a program

A syntax error says what was expected and which token stood there instead, or that the input had
ended. A fault is a syntax error together with what the reader did next: after a failed statement
it skips to the end of that statement and goes on, and a failed function ends the reading.
-/

namespace MiniC

/-- What the reader was looking for. -/
inductive Expected where
  /-- A token of exactly this text. -/
  | text (text : String)
  /-- A token of this kind. -/
  | kind (kind : Token.Kind)
  | returnType
  | statement
  | expression
  deriving DecidableEq, Repr

namespace Expected

/-- How messages name what was expected. -/
def describe : Expected → String
  | .text lexeme => "'" ++ lexeme ++ "'"
  | .kind k => k.name
  | .returnType => "return type"
  | .statement => "statement"
  | .expression => "expression"

end Expected

/-- What was expected, and the token found in its place; none when the input had ended. -/
structure SyntaxError where
  expected : Expected
  found : Option Token
  deriving DecidableEq, Repr

namespace SyntaxError

/-- The line of the token found; an error at the end of the input has none. -/
def line (e : SyntaxError) : Option Nat := e.found.map Token.line

/-- The wording of the error. -/
def message (e : SyntaxError) : String :=
  match e.found, e.expected with
  | none, expected => "Expected " ++ expected.describe ++ " but reached end of input"
  | some t, .statement => "Invalid statement starting with '" ++ t.text ++ "'"
  | some t, .expression => "Unexpected token '" ++ t.text ++ "' in expression"
  | some t, expected => "Expected " ++ expected.describe ++ " but found '" ++ t.text ++ "'"

end SyntaxError

/-- What the reader does after an error. -/
inductive Sequel where
  /-- It skips this many tokens and goes on inside the block. -/
  | resumed (skipped : Nat)
  /-- It stops reading the program. -/
  | aborted
  deriving DecidableEq, Repr

/-- A syntax error and what the reader did next. -/
structure Fault where
  error : SyntaxError
  sequel : Sequel
  deriving DecidableEq, Repr

end MiniC
