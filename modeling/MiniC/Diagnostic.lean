import MiniC.Grammar.Fault
import MiniC.Scope.Analysis
import MiniC.Source.Position

/-!
# Diagnostics

A diagnostic is an error as the user sees it: its wording, the line it points at, and a heading
that says which stage found it.
-/

namespace MiniC

/-- An error of one of the stages, in words. -/
inductive Diagnostic where
  /-- A character that starts no lexeme. The lexical rules leave none: a character that nothing
      else takes is a lexeme of its own. -/
  | lexical (character : Char) (pos : Position)
  /-- An error of the grammar. Without a line, it is at the end of the input. -/
  | grammatical (message : String) (line : Option Nat)
  /-- An error in the use of names. -/
  | semantic (message : String) (line : Option Nat)
  deriving DecidableEq, Repr

namespace Diagnostic

/-- The wording, without the heading. -/
def message : Diagnostic → String
  | .lexical character pos =>
    "Unexpected character '" ++ String.singleton character ++ "' at line " ++ toString pos.line
      ++ ", column " ++ toString pos.column
  | .grammatical message _ => message
  | .semantic message _ => message

/-- The line the diagnostic points at. -/
def line : Diagnostic → Option Nat
  | .lexical _ pos => some pos.line
  | .grammatical _ line => line
  | .semantic _ line => line

/-- What stands before the wording. -/
def heading : Diagnostic → String
  | .lexical _ _ => "Lexical error"
  | .grammatical _ none => "Syntax error at EOF"
  | .grammatical _ (some line) => "Syntax error at line " ++ toString line
  | .semantic _ none => "Semantic error"
  | .semantic _ (some line) => "Semantic error at line " ++ toString line

/-- The diagnostic as printed. -/
def text (d : Diagnostic) : String := d.heading ++ ": " ++ d.message

end Diagnostic

/-- A syntax error in words. -/
def SyntaxError.diagnostic (e : SyntaxError) : Diagnostic := .grammatical e.message e.line

/-- A wrong use of a name in words. -/
def SemanticError.diagnostic (e : SemanticError) : Diagnostic :=
  .semantic e.message (some e.id.line)

end MiniC
