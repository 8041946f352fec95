import MiniC.Scope.Basic

/-!
# The symbol table

The table keeps every scope ever entered, in the order of entering; a scope's number is its place
in that order. Entering and leaving a scope only moves the current scope. A name is looked up from
a scope outwards along the parents, and the nearest scope that declares it decides.
-/

namespace MiniC

/-- Every scope entered so far, and the number of the current one. -/
structure SymbolTable where
  scopes : Array Scope
  current : Nat
  deriving DecidableEq, Repr

namespace SymbolTable

/-- The number of the global scope. -/
def globalScope : Nat := 0

/-- The table before any declaration: the global scope, which knows `printf`. -/
def new : SymbolTable := ⟨#[⟨"global", none, [Symbol.printf]⟩], globalScope⟩

/-- The scope of that number. -/
def scope? (table : SymbolTable) (i : Nat) : Option Scope := table.scopes[i]?

/-- The number of the scope around scope `i`. -/
def parent? (table : SymbolTable) (i : Nat) : Option Nat := (table.scope? i).bind Scope.parent

/-! ## 1. Operations -/

/-- Opens a scope inside the current one and makes it current. -/
def enter (table : SymbolTable) (name : String) : SymbolTable :=
  ⟨table.scopes.push ⟨name, some table.current, []⟩, table.scopes.size⟩

/-- Makes the scope around the current one current. The global scope is never left. -/
def leave (table : SymbolTable) : SymbolTable :=
  { table with current := (table.parent? table.current).getD table.current }

/-- Declares a symbol in scope `i`; nothing if that scope already holds its name. -/
def declare? (table : SymbolTable) (i : Nat) (symbol : Symbol) : Option SymbolTable := do
  let scope ← table.scope? i
  let scope ← scope.declare? symbol
  return { table with scopes := table.scopes.setIfInBounds i scope }

@[simp] theorem scopes_enter (table : SymbolTable) (name : String) :
    (table.enter name).scopes = table.scopes.push ⟨name, some table.current, []⟩ := rfl

@[simp] theorem current_enter (table : SymbolTable) (name : String) :
    (table.enter name).current = table.scopes.size := rfl

@[simp] theorem scopes_leave (table : SymbolTable) : table.leave.scopes = table.scopes := rfl

/-- A declaration changes only the scope it is made in. -/
theorem declare?_eq_some_iff {table table' : SymbolTable} {i : Nat} {symbol : Symbol} :
    table.declare? i symbol = some table' ↔
      ∃ scope scope', table.scope? i = some scope ∧ scope.declare? symbol = some scope' ∧
        table' = { table with scopes := table.scopes.setIfInBounds i scope' } := by
  unfold declare?
  cases table.scope? i with
  | none => simp
  | some scope =>
    cases h : scope.declare? symbol with
    | none => simp [h]
    | some scope' => simp [h, eq_comm]

/-! ## 2. Looking names up -/

/-- Scope `i` and the scopes around it, from the inside out. A parent has a smaller number. -/
def ancestors (table : SymbolTable) (i : Nat) : List Nat :=
  match table.parent? i with
  | none => [i]
  | some p => if p < i then i :: ancestors table p else [i]
termination_by i

/-- The symbol of that name in the nearest scope from `i` outwards. -/
def lookupFrom (table : SymbolTable) (i : Nat) (name : String) : Option Symbol :=
  (table.ancestors i).findSome? fun j => (table.scope? j).bind (·.get? name)

/-- The symbol of that name as seen from the current scope. -/
def lookup (table : SymbolTable) (name : String) : Option Symbol :=
  table.lookupFrom table.current name

end SymbolTable

end MiniC
