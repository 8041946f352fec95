/-!
# Symbols and scopes

A symbol is what a name was declared to be: a variable, or a function with its parameters. A scope
holds symbols of different names in the order of their declaration.
-/

namespace MiniC

/-- What a name stands for. -/
inductive Meaning where
  /-- A variable or parameter, with the line of its declaration. -/
  | var (line : Nat)
  /-- A function, with its parameter names and the line of its definition. A function that is
      built in has no line. -/
  | func (params : List String) (line : Option Nat)
  deriving DecidableEq, Repr

namespace Meaning

/-- The line of the declaration; none for what is built in. -/
def line : Meaning → Option Nat
  | .var n => some n
  | .func _ n => n

/-- The parameter names; a variable has none. -/
def params : Meaning → List String
  | .var _ => []
  | .func names _ => names

/-- The word for the kind of symbol. -/
def kindName : Meaning → String
  | .var _ => "Variable"
  | .func _ _ => "Function"

end Meaning

/-- A declared name. -/
structure Symbol where
  name : String
  meaning : Meaning
  deriving DecidableEq, Repr

/-- The function that every program can call without defining it. -/
def Symbol.printf : Symbol := ⟨"printf", .func [] none⟩

/-- A region of the program: its name, the scope around it, and the symbols declared directly in
    it, in the order of declaration. -/
structure Scope where
  name : String
  parent : Option Nat
  symbols : List Symbol
  deriving DecidableEq, Repr

namespace Scope

/-- The symbol of that name declared directly in the scope. -/
def get? (scope : Scope) (name : String) : Option Symbol :=
  scope.symbols.find? (·.name = name)

/-- The scope with one more symbol, none of that name being there yet; otherwise nothing. -/
def declare? (scope : Scope) (symbol : Symbol) : Option Scope :=
  match scope.get? symbol.name with
  | some _ => none
  | none => some { scope with symbols := scope.symbols ++ [symbol] }

/-- What `get?` finds has the name looked for. -/
theorem name_of_get? {scope : Scope} {name : String} {symbol : Symbol}
    (h : scope.get? name = some symbol) : symbol.name = name := by
  simpa using List.find?_some h

/-- What `get?` finds was declared in the scope. -/
theorem mem_of_get? {scope : Scope} {name : String} {symbol : Symbol}
    (h : scope.get? name = some symbol) : symbol ∈ scope.symbols :=
  List.mem_of_find?_eq_some h

theorem get?_eq_none_iff {scope : Scope} {name : String} :
    scope.get? name = none ↔ ∀ symbol ∈ scope.symbols, symbol.name ≠ name := by
  simp [get?]

/-- A declaration appends its symbol, and succeeds exactly when the name is free. -/
theorem declare?_eq_some_iff {scope scope' : Scope} {symbol : Symbol} :
    scope.declare? symbol = some scope' ↔
      scope.get? symbol.name = none ∧
        scope' = { scope with symbols := scope.symbols ++ [symbol] } := by
  unfold declare?
  cases h : scope.get? symbol.name <;> simp [eq_comm]

end Scope

end MiniC
