import MiniC.Scope.Table
import MiniC.Text.Padding

/-!
# Listing scopes

Each scope is a line with its number, name and parent, followed by an indented line for each of
its symbols.
-/

namespace MiniC

/-- The line of a symbol: name, kind with the parameters if there are any, and the line of the
    declaration. -/
def Symbol.listing (symbol : Symbol) : String :=
  let params :=
    if symbol.meaning.params.isEmpty then ""
    else "(" ++ ", ".intercalate symbol.meaning.params ++ ")"
  let line := (symbol.meaning.line.map toString).getD "builtin"
  "    " ++ Text.pad .left 12 symbol.name ++ " " ++ symbol.meaning.kindName ++ params
    ++ " [" ++ line ++ "]"

/-- The lines of scope number `i`. -/
def Scope.listing (i : Nat) (scope : Scope) : List String :=
  let parent := (scope.parent.map fun p => "#" ++ toString p).getD "-"
  ("#" ++ toString i ++ " " ++ scope.name ++ " (parent: " ++ parent ++ ")")
    :: scope.symbols.map Symbol.listing

/-- The lines of all scopes, the first of which has number `i`. -/
def Scope.listingFrom (i : Nat) : List Scope → List String
  | [] => []
  | scope :: scopes => scope.listing i ++ Scope.listingFrom (i + 1) scopes

/-- The lines of every scope of a table, in the order of entering. -/
def SymbolTable.listing (table : SymbolTable) : List String :=
  Scope.listingFrom 0 table.scopes.toList

end MiniC
