import MiniC.Proofs.Scope.Frames

/-!
# The uses of variables

Where the names of variables stand in a function, each with the table that is in force there. The
walk below follows the analysis: it takes its tables from it and enters its scopes in the same
order. A use belongs to the declaration of its name in the nearest scope that holds the name, and
a declaration shadows those of its name that are in force in the scopes around it.
-/

namespace MiniC

open SymbolTable

/-! ## 1. Uses -/

/-- What a name of a variable is there for. -/
inductive Access where
  | declared
  | written
  | read
  deriving DecidableEq, Repr

/-- The name of a variable in a function, and the table in force where it stands. -/
structure Use where
  access : Access
  id : Ident
  table : SymbolTable
  deriving DecidableEq, Repr

mutual

/-- The names that stand for values in an expression, from left to right. -/
def Expr.reads : Expr → List Ident
  | .number _ | .string _ => []
  | .ident id => [id]
  | .binary _ left right => left.reads ++ right.reads
  | .unary _ operand => operand.reads
  | .call _ args => Expr.readsAll args

/-- The names that stand for values in expressions. -/
def Expr.readsAll : List Expr → List Ident
  | [] => []
  | e :: es => e.reads ++ Expr.readsAll es

end

/-- The uses of variables in an expression. -/
def Expr.uses (table : SymbolTable) (e : Expr) : List Use :=
  e.reads.map (⟨.read, ·, table⟩)

/-- The uses in a declaration: it is in force before its initial value, which is written last. -/
def Declaration.uses (table : SymbolTable) (decl : Declaration) : List Use :=
  let after := (decl.analyze table).table
  ⟨.declared, decl.target, after⟩ ::
    match decl.init with
    | none => []
    | some init => init.uses after ++ [⟨.written, decl.target, after⟩]

/-- The uses in an assignment. -/
def Assignment.uses (table : SymbolTable) (a : Assignment) : List Use :=
  a.value.uses table ++ [⟨.written, a.target, table⟩]

mutual

/-- The uses of variables in a statement. -/
def Stmt.uses (table : SymbolTable) : Stmt → List Use
  | .declare decl => decl.uses table
  | .assign a => a.uses table
  | .call callee args => (Expr.call callee args).uses table
  | .ret none _ => []
  | .ret (some value) _ => value.uses table
  | .branch cond yes no =>
    cond.uses table ++ Stmt.usesAll (table.enter "block") yes ++
      Stmt.usesElse (Analysis.inScope table "block" (Stmt.analyzeAll · yes)).table no
  | .loop init cond step body =>
    let head := (init.analyze (table.enter "for-loop")).table
    init.uses (table.enter "for-loop") ++ cond.uses head ++
      Stmt.usesAll (head.enter "block") body ++ step.uses head

/-- The uses of variables in statements, one after the other. -/
def Stmt.usesAll (table : SymbolTable) : List Stmt → List Use
  | [] => []
  | stmt :: stmts => stmt.uses table ++ Stmt.usesAll (stmt.analyze table).table stmts

/-- The uses of variables in an `else` block, if there is one. -/
def Stmt.usesElse (table : SymbolTable) : Option (List Stmt) → List Use
  | none => []
  | some stmts => Stmt.usesAll (table.enter "block") stmts

end

/-! ## 2. Functions -/

namespace Function

/-- The table after the functions `before`. -/
def tableAfter (before : List Function) : SymbolTable := (analyzeAll new before).table

/-- The table at the start of the body of a function: its name is declared, its scope is entered,
    and its parameters are declared there. -/
def opened (table : SymbolTable) (f : Function) : SymbolTable :=
  let named := (Analysis.declaring table globalScope f.symbol ⟨.redefined, f.id⟩).table
  (Analysis.declaringVars (named.enter f.id.name) (f.params.map Param.id)).table

/-- The uses of variables in a function that comes after the functions `before`. -/
def uses (before : List Function) (f : Function) : List Use :=
  Stmt.usesAll (f.opened (tableAfter before)) f.body

theorem wellFormed_tableAfter (before : List Function) : (tableAfter before).WellFormed := by
  obtain ⟨added, hgrows, -⟩ := grows_analyzeAll before wellFormed_new rfl
  exact hgrows.wellFormed

theorem current_tableAfter (before : List Function) :
    (tableAfter before).current = globalScope := by
  obtain ⟨added, hgrows, -⟩ := grows_analyzeAll before wellFormed_new rfl
  exact hgrows.current

/-- The table that the body starts with, and the variables found in it: the parameters. -/
theorem opened_tableAfter (before : List Function) (f : Function) :
    (f.opened (tableAfter before)).WellFormed ∧
      ∀ x symbol, (f.opened (tableAfter before)).lookup x = some symbol →
        symbol.isVariable = true → ∃ param ∈ f.params, symbol = varSymbol param.id := by
  have hwf := wellFormed_tableAfter before
  -- Declaring the name of the function adds at most a function.
  obtain ⟨added, hnamed, hadded⟩ : ∃ added, Grows (tableAfter before)
      (Analysis.declaring (tableAfter before) globalScope f.symbol ⟨.redefined, f.id⟩).table added ∧
      ∀ s ∈ added, s = f.symbol := by
    unfold Analysis.declaring
    rw [← current_tableAfter before]
    cases h : (tableAfter before).declare? (tableAfter before).current f.symbol with
    | none => exact ⟨[], .refl hwf, fun s hs => absurd hs List.not_mem_nil⟩
    | some table' => exact ⟨[f.symbol], .declare? hwf h, fun s hs => List.mem_singleton.mp hs⟩
  obtain ⟨params, hparams, hmem⟩ :=
    Analysis.grows_declaringVars (f.params.map Param.id) (hnamed.wellFormed.enter f.id.name)
  refine ⟨hparams.wellFormed, fun x symbol hx hvariable => ?_⟩
  rcases hparams.of_lookup (hnamed.wellFormed.enter _) hx with hs | hx
  · obtain ⟨id, hid, rfl⟩ := hmem symbol hs
    obtain ⟨param, hparam, rfl⟩ := List.mem_map.mp hid
    exact ⟨param, hparam, rfl⟩
  · rw [lookup_enter hnamed.wellFormed] at hx
    rcases hnamed.of_lookup hwf hx with hs | hx
    · rw [hadded symbol hs] at hvariable
      cases hvariable
    · rw [isVariable_lookup_analyzeAll before hx] at hvariable
      cases hvariable

end Function

/-! ## 3. Declarations and shadowing -/

/-- A declaration: the number of the scope it is made in, and the name. No scope holds a name
    twice, so this is one declaration. -/
structure Declared where
  scope : Nat
  name : String
  deriving DecidableEq, Repr

/-- The nearest scope from the current one outwards that holds the name. -/
def SymbolTable.home? (table : SymbolTable) (name : String) : Option Nat :=
  (table.ancestors table.current).find? fun i => (table.symbolsAt i).any (·.name = name)

/-- The declaration that a use belongs to. -/
def Use.declaration? (use : Use) : Option Declared :=
  (use.table.home? use.id.name).map (⟨·, use.id.name⟩)

theorem Use.name_of_declaration? {use : Use} {d : Declared} (h : use.declaration? = some d) :
    d.name = use.id.name := by
  obtain ⟨scope, -, rfl⟩ := Option.map_eq_some_iff.mp h
  rfl

/-- Whether the use makes the declaration `inner`, and the variable `outer` of the same name is then
    in force in one of the scopes around it. -/
def Use.shadows (use : Use) (inner outer : Declared) : Bool :=
  use.access = .declared && use.declaration? = some inner && outer.name = inner.name &&
    (use.table.ancestors inner.scope).tail.contains outer.scope &&
    (use.table.symbolsAt outer.scope).any fun symbol =>
      symbol.name = outer.name && symbol.isVariable

/-- The declaration `inner` in a function shadows the variable `outer`. The global scope holds no
    variables, so `outer` is a variable of the same function. -/
def Function.Shadows (before : List Function) (f : Function) (inner outer : Declared) : Prop :=
  ∃ use ∈ f.uses before, use.shadows inner outer = true

theorem Use.of_shadows {use : Use} {inner outer : Declared} (h : use.shadows inner outer = true) :
    use.declaration? = some inner ∧ outer.name = inner.name := by
  simp only [Use.shadows, Bool.and_eq_true, decide_eq_true_eq] at h
  exact ⟨h.1.1.1.2, h.1.1.2⟩

end MiniC
