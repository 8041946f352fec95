/-!
# Writing out structured values

A dump shows how a value is built: words, labelled fields, and groups in brackets. It is written
either on one line, or with every member of a group on a line of its own, indented by four spaces
for each level and closed by a comma.
-/

namespace MiniC.Text

/-- The structure of a value that is to be written out. -/
inductive Dump where
  | atom (text : String)
  /-- A member with its name. -/
  | field (name : String) (value : Dump)
  /-- Members in brackets. On one line, `margin` stands inside the brackets. -/
  | group (opening closing margin : String) (members : List Dump)
  deriving Repr

namespace Dump

/-- Members in square brackets. -/
def list (members : List Dump) : Dump := .group "[" "]" "" members

/-- A name and members in parentheses. -/
def tuple (name : String) (members : List Dump) : Dump := .group (name ++ "(") ")" "" members

/-- A name and named members in braces. -/
def record (name : String) (fields : List (String × Dump)) : Dump :=
  .group (name ++ " \x7b") "\x7d" " " (fields.map fun (label, value) => .field label value)

/-- A value that may be absent. -/
def option : Option Dump → Dump
  | none => .atom "None"
  | some value => tuple "Some" [value]

/-! ## 1. On one line -/

mutual

/-- The value on one line. -/
def compact : Dump → String
  | .atom text => text
  | .field name value => name ++ ": " ++ value.compact
  | .group opening closing margin members =>
    match members with
    | [] => opening ++ closing
    | member :: members =>
      opening ++ margin ++ member.compact ++ compactMore members ++ margin ++ closing

/-- The members after the first, each after a comma. -/
def compactMore : List Dump → String
  | [] => ""
  | member :: members => ", " ++ member.compact ++ compactMore members

end

/-! ## 2. On many lines -/

/-- The indentation of a line at that depth. -/
def indent (depth : Nat) : String := String.ofList (List.replicate (4 * depth) ' ')

mutual

/-- The value on many lines, all but the first of them indented by `depth` levels at least. -/
def pretty (depth : Nat) : Dump → String
  | .atom text => text
  | .field name value => name ++ ": " ++ value.pretty depth
  | .group opening closing _ members =>
    match members with
    | [] => opening ++ closing
    | member :: members =>
      opening ++ "\n" ++ indent (depth + 1) ++ member.pretty (depth + 1) ++ ",\n"
        ++ prettyMore (depth + 1) members ++ indent depth ++ closing

/-- The members after the first, each on lines of its own. -/
def prettyMore (depth : Nat) : List Dump → String
  | [] => ""
  | member :: members =>
    indent depth ++ member.pretty depth ++ ",\n" ++ prettyMore depth members

end

end Dump

end MiniC.Text
