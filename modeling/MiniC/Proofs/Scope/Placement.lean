import MiniC.Proofs.Scope.Frames
import MiniC.Proofs.Tree.Lines

/-!
# The analysis does not look at lines

The analysis only copies lines, from names to symbols and errors. So it makes no difference whether
the lines are taken away from a program before it is analysed, or from its scopes and errors after
it. A symbol that has no line keeps none: what is built in stays built in. Main statement:
`Program.analyze_withoutLines`.
-/

namespace MiniC

/-! ## 1. Taking lines away -/

/-- The meaning with its line, if it has one, set to 0. -/
def Meaning.withoutLine : Meaning → Meaning
  | .var _ => .var 0
  | .func params line => .func params (line.map fun _ => 0)

/-- The symbol with its line, if it has one, set to 0. -/
def Symbol.withoutLine (symbol : Symbol) : Symbol :=
  { symbol with meaning := symbol.meaning.withoutLine }

/-- The scope with the lines of its symbols set to 0. -/
def Scope.withoutLines (scope : Scope) : Scope :=
  { scope with symbols := scope.symbols.map Symbol.withoutLine }

/-- The table with the lines of all symbols set to 0. -/
def SymbolTable.withoutLines (table : SymbolTable) : SymbolTable :=
  { table with scopes := table.scopes.map Scope.withoutLines }

/-- The error with its line set to 0. -/
def SemanticError.withoutLine (e : SemanticError) : SemanticError :=
  { e with id := e.id.withoutLine }

/-- The analysis with the lines of all symbols and errors set to 0. -/
def Analysis.withoutLines (a : Analysis) : Analysis :=
  ⟨a.table.withoutLines, a.errors.map SemanticError.withoutLine⟩

/-! ## 2. Symbols and tables -/

theorem Scope.get?_withoutLines (scope : Scope) (name : String) :
    scope.withoutLines.get? name = (scope.get? name).map Symbol.withoutLine :=
  List.find?_map

theorem Scope.declare?_withoutLines (scope : Scope) (symbol : Symbol) :
    scope.withoutLines.declare? symbol.withoutLine =
      (scope.declare? symbol).map Scope.withoutLines := by
  have hget : scope.withoutLines.get? symbol.withoutLine.name =
      (scope.get? symbol.name).map Symbol.withoutLine := scope.get?_withoutLines symbol.name
  rw [declare?, declare?, hget]
  cases scope.get? symbol.name with
  | some found => rfl
  | none => simp [withoutLines]

namespace SymbolTable

/-- The one symbol of the new table is built in. -/
theorem new_withoutLines : new.withoutLines = new := by
  rw [withoutLines, new, List.map_toArray]
  rfl

theorem scope?_withoutLines (table : SymbolTable) (i : Nat) :
    table.withoutLines.scope? i = (table.scope? i).map Scope.withoutLines :=
  Array.getElem?_map

theorem parent?_withoutLines (table : SymbolTable) (i : Nat) :
    table.withoutLines.parent? i = table.parent? i := by
  rw [parent?, parent?, scope?_withoutLines]
  cases table.scope? i <;> rfl

theorem lookup_withoutLines (table : SymbolTable) (name : String) :
    table.withoutLines.lookup name = (table.lookup name).map Symbol.withoutLine := by
  have hancestors : table.withoutLines.ancestors table.current = table.ancestors table.current :=
    ancestors_congr _ fun j _ => parent?_withoutLines table j
  have hget : ∀ j, (table.withoutLines.scope? j).bind (·.get? name) =
      ((table.scope? j).bind (·.get? name)).map Symbol.withoutLine := by
    intro j
    rw [scope?_withoutLines]
    cases table.scope? j with
    | none => rfl
    | some scope => exact scope.get?_withoutLines name
  rw [lookup, lookup, lookupFrom, lookupFrom, List.map_findSome?]
  show (table.withoutLines.ancestors table.current).findSome? _ = _
  rw [hancestors]
  exact congrArg (List.findSome? · _) (funext hget)

theorem enter_withoutLines (table : SymbolTable) (name : String) :
    table.withoutLines.enter name = (table.enter name).withoutLines := by
  simp [enter, withoutLines, Scope.withoutLines]

theorem leave_withoutLines (table : SymbolTable) :
    table.withoutLines.leave = table.leave.withoutLines := by
  rw [leave, leave, parent?_withoutLines]
  rfl

theorem declare?_withoutLines (table : SymbolTable) (i : Nat) (symbol : Symbol) :
    table.withoutLines.declare? i symbol.withoutLine =
      (table.declare? i symbol).map withoutLines := by
  rw [declare?, declare?, scope?_withoutLines]
  cases table.scope? i with
  | none => rfl
  | some scope =>
    show (scope.withoutLines.declare? symbol.withoutLine).bind _ = _
    rw [Scope.declare?_withoutLines]
    cases h : scope.declare? symbol with
    | none => simp [h]
    | some scope' => simp [h, withoutLines]

end SymbolTable

/-! ## 3. Expressions -/

section Lookups

variable {lookup lookup' : String → Option Symbol}

theorem Ident.misuses_withoutLine (h : ∀ x, lookup' x = (lookup x).map Symbol.withoutLine)
    (id : Ident) :
    id.withoutLine.misuses lookup' = (id.misuses lookup).map SemanticError.withoutLine := by
  rw [misuses, misuses, show id.withoutLine.name = id.name from rfl, h]
  cases lookup id.name <;> rfl

theorem Ident.callMisuses_withoutLine (h : ∀ x, lookup' x = (lookup x).map Symbol.withoutLine)
    (callee : Ident) :
    callee.withoutLine.callMisuses lookup' =
      (callee.callMisuses lookup).map SemanticError.withoutLine := by
  rw [callMisuses, callMisuses, show callee.withoutLine.name = callee.name from rfl, h]
  cases lookup callee.name with
  | none => rfl
  | some symbol =>
    obtain ⟨name, meaning⟩ := symbol
    cases meaning <;> rfl

mutual

theorem Expr.misuses_withoutLines (h : ∀ x, lookup' x = (lookup x).map Symbol.withoutLine) :
    (e : Expr) →
    e.withoutLines.misuses lookup' = (e.misuses lookup).map SemanticError.withoutLine
  | .number _ | .string _ => rfl
  | .ident id => id.misuses_withoutLine h
  | .unary _ operand => operand.misuses_withoutLines h
  | .binary _ left right => by
    rw [Expr.withoutLines, Expr.misuses, Expr.misuses, left.misuses_withoutLines h,
      right.misuses_withoutLines h, List.map_append]
  | .call callee args => by
    rw [Expr.withoutLines, Expr.misuses, Expr.misuses, callee.callMisuses_withoutLine h,
      Expr.misusesAll_withoutLines h args, List.map_append]

theorem Expr.misusesAll_withoutLines (h : ∀ x, lookup' x = (lookup x).map Symbol.withoutLine) :
    (es : List Expr) →
    Expr.misusesAll lookup' (Expr.withoutLinesAll es) =
      (Expr.misusesAll lookup es).map SemanticError.withoutLine
  | [] => rfl
  | e :: es => by
    rw [Expr.withoutLinesAll, Expr.misusesAll, Expr.misusesAll, e.misuses_withoutLines h,
      Expr.misusesAll_withoutLines h es, List.map_append]

end

theorem Expr.misusesOption_withoutLines (h : ∀ x, lookup' x = (lookup x).map Symbol.withoutLine)
    (value : Option Expr) :
    ((value.map Expr.withoutLines).map (Expr.misuses lookup')).getD [] =
      ((value.map (Expr.misuses lookup)).getD []).map SemanticError.withoutLine := by
  cases value with
  | none => rfl
  | some e => exact e.misuses_withoutLines h

theorem Assignment.misuses_withoutLines (h : ∀ x, lookup' x = (lookup x).map Symbol.withoutLine)
    (a : Assignment) :
    a.withoutLines.misuses lookup' = (a.misuses lookup).map SemanticError.withoutLine := by
  rw [misuses, misuses, List.map_append, ← a.target.misuses_withoutLine h,
    ← a.value.misuses_withoutLines h]
  rfl

end Lookups

/-! ## 4. Statements -/

namespace Analysis

theorem andThen_withoutLines {next next' : SymbolTable → Analysis}
    (h : ∀ table, next' table.withoutLines = (next table).withoutLines) (a : Analysis) :
    a.withoutLines.andThen next' = (a.andThen next).withoutLines := by
  rw [andThen, andThen, show a.withoutLines.table = a.table.withoutLines from rfl, h]
  simp only [withoutLines, List.map_append]

theorem checking_withoutLines {misuses misuses' : (String → Option Symbol) → List SemanticError}
    (h : ∀ lookup lookup' : String → Option Symbol,
      (∀ x, lookup' x = (lookup x).map Symbol.withoutLine) →
      misuses' lookup' = (misuses lookup).map SemanticError.withoutLine) (a : Analysis) :
    a.withoutLines.checking misuses' = (a.checking misuses).withoutLines := by
  have hfound := h a.table.lookup a.table.withoutLines.lookup a.table.lookup_withoutLines
  rw [checking, checking, show a.withoutLines.table = a.table.withoutLines from rfl, hfound]
  simp only [withoutLines, List.map_append]

theorem inScope_withoutLines {part part' : SymbolTable → Analysis}
    (h : ∀ table, part' table.withoutLines = (part table).withoutLines) (table : SymbolTable)
    (name : String) :
    inScope table.withoutLines name part' = (inScope table name part).withoutLines := by
  rw [inScope, inScope, SymbolTable.enter_withoutLines, h]
  simp only [withoutLines, SymbolTable.leave_withoutLines]

theorem declaring_withoutLines (table : SymbolTable) (i : Nat) (symbol : Symbol)
    (error : SemanticError) :
    declaring table.withoutLines i symbol.withoutLine error.withoutLine =
      (declaring table i symbol error).withoutLines := by
  rw [declaring, declaring, SymbolTable.declare?_withoutLines]
  cases table.declare? i symbol <;> rfl

theorem declaringVar_withoutLines (table : SymbolTable) (id : Ident) :
    declaringVar table.withoutLines id.withoutLine = (declaringVar table id).withoutLines :=
  declaring_withoutLines table table.current ⟨id.name, .var id.line⟩ ⟨.redeclared, id⟩

theorem declaringVars_withoutLines (ids : List Ident) : ∀ table : SymbolTable,
    declaringVars table.withoutLines (ids.map Ident.withoutLine) =
      (declaringVars table ids).withoutLines := by
  induction ids with
  | nil => exact fun _ => rfl
  | cons id ids ih =>
    intro table
    rw [List.map_cons, declaringVars, declaringVars, declaringVar_withoutLines]
    exact andThen_withoutLines ih _

/-- Nothing has been analysed yet. -/
theorem start_withoutLines (table : SymbolTable) :
    (⟨table.withoutLines, []⟩ : Analysis) = withoutLines ⟨table, []⟩ := rfl

end Analysis

theorem Declaration.analyze_withoutLines (table : SymbolTable) (decl : Declaration) :
    decl.withoutLines.analyze table.withoutLines = (decl.analyze table).withoutLines := by
  rw [analyze, analyze, show decl.withoutLines.target = decl.target.withoutLine from rfl,
    Analysis.declaringVar_withoutLines]
  exact Analysis.checking_withoutLines
    (fun lookup lookup' h => Expr.misusesOption_withoutLines h decl.init) _

mutual

theorem Stmt.analyze_withoutLines (table : SymbolTable) : (stmt : Stmt) →
    stmt.withoutLines.analyze table.withoutLines = (stmt.analyze table).withoutLines
  | .declare decl => decl.analyze_withoutLines table
  | .assign a =>
    Analysis.checking_withoutLines (fun _ _ h => a.misuses_withoutLines h) ⟨table, []⟩
  | .call callee args =>
    Analysis.checking_withoutLines
      (fun _ _ h => (Expr.call callee args).misuses_withoutLines h) ⟨table, []⟩
  | .ret value _ =>
    Analysis.checking_withoutLines
      (fun _ _ h => Expr.misusesOption_withoutLines h value) ⟨table, []⟩
  | .branch cond yes no => by
    have hcond := Analysis.checking_withoutLines (fun _ _ h => cond.misuses_withoutLines h)
      ⟨table, []⟩
    rw [Stmt.withoutLines, Stmt.analyze, Stmt.analyze, Analysis.start_withoutLines, hcond]
    refine Analysis.andThen_withoutLines (fun table => ?_) _
    rw [Analysis.inScope_withoutLines fun table => Stmt.analyzeAll_withoutLines table yes]
    exact Analysis.andThen_withoutLines (fun table => Stmt.analyzeElse_withoutLines table no) _
  | .loop init cond step body => by
    rw [Stmt.withoutLines, Stmt.analyze, Stmt.analyze]
    refine Analysis.inScope_withoutLines (fun table => ?_) table _
    rw [init.analyze_withoutLines table,
      Analysis.checking_withoutLines fun _ _ h => cond.misuses_withoutLines h,
      Analysis.checking_withoutLines fun _ _ h => step.misuses_withoutLines h]
    refine Analysis.andThen_withoutLines (fun table => ?_) _
    exact Analysis.inScope_withoutLines (fun table => Stmt.analyzeAll_withoutLines table body) _ _

theorem Stmt.analyzeAll_withoutLines (table : SymbolTable) : (stmts : List Stmt) →
    Stmt.analyzeAll table.withoutLines (Stmt.withoutLinesAll stmts) =
      (Stmt.analyzeAll table stmts).withoutLines
  | [] => rfl
  | stmt :: stmts => by
    rw [Stmt.withoutLinesAll, Stmt.analyzeAll, Stmt.analyzeAll, Stmt.analyze_withoutLines table stmt]
    exact Analysis.andThen_withoutLines (fun table => Stmt.analyzeAll_withoutLines table stmts) _

theorem Stmt.analyzeElse_withoutLines (table : SymbolTable) : (no : Option (List Stmt)) →
    Stmt.analyzeElse table.withoutLines (Stmt.withoutLinesElse no) =
      (Stmt.analyzeElse table no).withoutLines
  | none => rfl
  | some stmts => by
    rw [Stmt.withoutLinesElse, Stmt.analyzeElse, Stmt.analyzeElse]
    exact Analysis.inScope_withoutLines (fun table => Stmt.analyzeAll_withoutLines table stmts) _ _

end

/-! ## 5. Programs -/

theorem Function.symbol_withoutLines (f : Function) :
    f.withoutLines.symbol = f.symbol.withoutLine := by
  simp [symbol, withoutLines, Symbol.withoutLine, Meaning.withoutLine, Param.withoutLine,
    Ident.withoutLine, Function.comp_def]

theorem Function.analyze_withoutLines (table : SymbolTable) (f : Function) :
    f.withoutLines.analyze table.withoutLines = (f.analyze table).withoutLines := by
  have hparams : f.withoutLines.params.map Param.id =
      (f.params.map Param.id).map Ident.withoutLine := by
    simp [withoutLines, Param.withoutLine, Function.comp_def]
  have hname := Analysis.declaring_withoutLines table SymbolTable.globalScope f.symbol
    ⟨.redefined, f.id⟩
  rw [analyze, analyze, symbol_withoutLines, hparams]
  refine (congrArg (Analysis.andThen · _) hname).trans ?_
  refine Analysis.andThen_withoutLines (fun table => ?_) _
  refine Analysis.inScope_withoutLines (fun table => ?_) _ _
  rw [Analysis.declaringVars_withoutLines]
  exact Analysis.andThen_withoutLines (fun table => Stmt.analyzeAll_withoutLines table f.body) _

theorem Function.analyzeAll_withoutLines (fs : List Function) : ∀ table : SymbolTable,
    Function.analyzeAll table.withoutLines (fs.map Function.withoutLines) =
      (Function.analyzeAll table fs).withoutLines := by
  induction fs with
  | nil => exact fun _ => rfl
  | cons f fs ih =>
    intro table
    rw [List.map_cons, analyzeAll, analyzeAll, f.analyze_withoutLines table]
    exact Analysis.andThen_withoutLines ih _

/-- **Without lines, a program has the same scopes and errors, without lines.** -/
theorem Program.analyze_withoutLines (program : Program) :
    program.withoutLines.analyze = program.analyze.withoutLines := by
  have hall := Function.analyzeAll_withoutLines program SymbolTable.new
  rwa [SymbolTable.new_withoutLines] at hall

end MiniC
