import MiniC.Source.Position
import MiniC.Text.Padding

/-!
# Tokens

A token is a lexeme of the source with its kind and the position of its first character. The
tables below are the fixed vocabulary of the language: keywords, operators and separators.
-/

namespace MiniC

/-- The kinds of lexeme. -/
inductive Token.Kind where
  | float
  | integer
  | string
  | keyword
  | identifier
  | operator
  | separator
  /-- A single character that no other kind accepts. -/
  | mismatch
  deriving DecidableEq, Repr

/-- A lexeme as written, its kind, and where it starts. -/
structure Token where
  kind : Token.Kind
  text : String
  pos : Position
  deriving DecidableEq, Repr

namespace Token

/-! ## 1. The vocabulary -/

/-- The reserved words. -/
def keywords : List String :=
  ["int", "void", "if", "else", "while", "for", "return", "printf"]

/-- The operators of two characters. They are tried before those of one, so that `<=` is never
    read as `<` and `=`. -/
def longOperators : List String := ["==", "!=", "<=", ">=", "&&", "||"]

/-- The operators of one character. -/
def shortOperators : List Char := ['+', '-', '*', '/', '=', '<', '>', '!']

/-- The brace that opens a block. -/
abbrev openBrace : String := "\x7b"

/-- The brace that closes a block. -/
abbrev closeBrace : String := "\x7d"

/-- The separators. -/
def separators : List Char := ['(', ')', '{', '}', ';', ',']

/-! ## 2. Reading a token -/

/-- The line the token starts on. -/
def line (t : Token) : Nat := t.pos.line

/-- Whether the token has this kind and this text. -/
def is (t : Token) (kind : Kind) (text : String) : Bool :=
  t.kind = kind && t.text = text

theorem is_iff (t : Token) (kind : Kind) (text : String) :
    t.is kind text = true ↔ t.kind = kind ∧ t.text = text := by
  simp [is]

/-! ## 3. The token table -/

/-- The name of a kind in tables and messages. -/
def Kind.name : Kind → String
  | .float => "FLOAT_LIT"
  | .integer => "INT_LIT"
  | .string => "STRING_LIT"
  | .keyword => "KEYWORD"
  | .identifier => "IDENTIFIER"
  | .operator => "OPERATOR"
  | .separator => "SEPARATOR"
  | .mismatch => "MISMATCH"

/-- Every kind, in the order in which the rules are tried. -/
def Kind.all : List Kind :=
  [.float, .integer, .string, .keyword, .identifier, .operator, .separator, .mismatch]

/-- The kind of that name, if there is one. -/
def Kind.ofName? (name : String) : Option Kind := all.find? (·.name = name)

@[simp] theorem Kind.ofName?_name (kind : Kind) : ofName? kind.name = some kind := by
  cases kind <;> decide

/-- The token's line in the token table: kind, text and position in columns. -/
def row (t : Token) : String :=
  Text.pad .left 12 t.kind.name ++ " " ++ Text.pad .left 16 t.text ++ " "
    ++ toString t.pos.line ++ ":" ++ toString t.pos.column

end Token

end MiniC
