import MiniC.Proofs.Scope.Frames

/-!
# The outline of a program

The regions of a program lie inside one another: functions in the program, blocks and loops in
functions. The outline is this tree, with the declarations made directly in each region, and it is
read off the program alone. The analysis keeps its scopes in one array and a number for the current
one; opened at the current scope (`Focus`), such a table grows by a few declarations in that scope
and by whole regions after the last scope, and nothing else ever happens to it. So the scopes of the
analysis are the outline in preorder, and the analysis ends where it starts, in the global scope.
Main statement: `Program.table_analyze_eq_outline`.
-/

namespace MiniC

/-! ## 1. Outlines -/

/-- A region of a program: its name, what is declared directly in it, and the regions directly
    inside it, all in source order. -/
inductive Outline where
  | region (name : String) (declared : List Symbol) (inner : List Outline)
  deriving Repr

/-- The first symbol of each name. -/
def Symbol.firsts : List Symbol → List Symbol
  | [] => []
  | symbol :: symbols => symbol :: (firsts symbols).filter (·.name ≠ symbol.name)

mutual

/-- The number of regions in an outline. -/
def Outline.size : Outline → Nat
  | .region _ _ inner => Outline.sizeAll inner + 1

/-- The number of regions in outlines. -/
def Outline.sizeAll : List Outline → Nat
  | [] => 0
  | outline :: outlines => outline.size + Outline.sizeAll outlines

end

mutual

/-- **The scopes of an outline in preorder.** The scopes are numbered in this order, the first is
    number `i`, and a scope has the number of the region around it for its parent. -/
def Outline.scopes (parent : Option Nat) (i : Nat) : Outline → List Scope
  | .region name declared inner =>
    ⟨name, parent, Symbol.firsts declared⟩ :: Outline.scopesAll i (i + 1) inner

/-- The scopes of outlines that lie side by side in region number `parent`. -/
def Outline.scopesAll (parent i : Nat) : List Outline → List Scope
  | [] => []
  | outline :: outlines =>
    outline.scopes (some parent) i ++ Outline.scopesAll parent (i + outline.size) outlines

end

mutual

theorem Outline.length_scopes (parent : Option Nat) (i : Nat) : (outline : Outline) →
    (outline.scopes parent i).length = outline.size
  | .region name declared inner => by
    rw [Outline.scopes, Outline.size, List.length_cons, Outline.length_scopesAll]

theorem Outline.length_scopesAll (parent i : Nat) : (outlines : List Outline) →
    (Outline.scopesAll parent i outlines).length = Outline.sizeAll outlines
  | [] => rfl
  | outline :: outlines => by
    rw [Outline.scopesAll, Outline.sizeAll, List.length_append, Outline.length_scopes,
      Outline.length_scopesAll]

end

/-- Outlines side by side are numbered one after the other. -/
theorem Outline.scopesAll_append (parent i : Nat) (os os' : List Outline) :
    Outline.scopesAll parent i (os ++ os') =
      Outline.scopesAll parent i os ++ Outline.scopesAll parent (i + Outline.sizeAll os) os' := by
  induction os generalizing i with
  | nil => rfl
  | cons o os ih =>
    rw [List.cons_append, Outline.scopesAll, ih, Outline.scopesAll, Outline.sizeAll,
      List.append_assoc, Nat.add_assoc]

/-! ## 2. Reading the outline off a program -/

/-- The variables that the statements declare in the scope they stand in. -/
def Stmt.declarations (stmts : List Stmt) : List Symbol :=
  (stmts.filterMap Stmt.declared?).map varSymbol

mutual

/-- The regions of a statement: the blocks of a branch, or the head of a loop with its body
    inside. -/
def Stmt.outlines : Stmt → List Outline
  | .declare _ | .assign _ | .call _ _ | .ret _ _ => []
  | .branch _ yes no =>
    .region "block" (Stmt.declarations yes) (Stmt.outlinesAll yes) :: Stmt.outlinesElse no
  | .loop init _ _ body =>
    [.region "for-loop" [varSymbol init.target]
      [.region "block" (Stmt.declarations body) (Stmt.outlinesAll body)]]

/-- The regions of statements, one after the other. -/
def Stmt.outlinesAll : List Stmt → List Outline
  | [] => []
  | stmt :: stmts => stmt.outlines ++ Stmt.outlinesAll stmts

/-- The region of an `else` block, if there is one. -/
def Stmt.outlinesElse : Option (List Stmt) → List Outline
  | none => []
  | some stmts => [.region "block" (Stmt.declarations stmts) (Stmt.outlinesAll stmts)]

end

/-- The parameters and the body of a function share one region. -/
def Function.outline (f : Function) : Outline :=
  .region f.id.name (f.params.map (varSymbol ·.id) ++ Stmt.declarations f.body)
    (Stmt.outlinesAll f.body)

/-- **The outline of a program.** The global region knows `printf` and the functions. -/
def Program.outline (program : Program) : Outline :=
  .region "global"
    (⟨"printf", .func [] none⟩ ::
      program.map fun f => ⟨f.id.name, .func (f.params.map (·.id.name)) (some f.id.line)⟩)
    (program.map Function.outline)

/-! ## 3. Declaring one symbol after the other -/

/-- The scope after the declarations, of which those of a name it holds are refused. -/
def Scope.declareAll (scope : Scope) (symbols : List Symbol) : Scope :=
  symbols.foldl (fun scope symbol => (scope.declare? symbol).getD scope) scope

namespace Scope

theorem declareAll_append (scope : Scope) (symbols symbols' : List Symbol) :
    scope.declareAll (symbols ++ symbols') = (scope.declareAll symbols).declareAll symbols' :=
  List.foldl_append

/-- A refused declaration leaves the scope as it is, and any other adds its symbol. -/
theorem getD_declare? (scope : Scope) (symbol : Symbol) :
    (scope.declare? symbol).getD scope =
      if symbol.name ∈ scope.symbols.map Symbol.name then scope
      else { scope with symbols := scope.symbols ++ [symbol] } := by
  unfold declare?
  cases hget : scope.get? symbol.name with
  | none =>
    have hfree : symbol.name ∉ scope.symbols.map Symbol.name := by
      intro hmem
      obtain ⟨found, hfound, hname⟩ := List.mem_map.mp hmem
      exact get?_eq_none_iff.mp hget found hfound hname
    rw [if_neg hfree]
    rfl
  | some found =>
    have htaken : symbol.name ∈ scope.symbols.map Symbol.name := by
      rw [← name_of_get? hget]
      exact List.mem_map_of_mem (mem_of_get? hget)
    rw [if_pos htaken]
    rfl

/-- Of the declarations, those count that are the first of a name not yet held. -/
theorem declareAll_eq (symbols : List Symbol) : ∀ scope : Scope,
    scope.declareAll symbols =
      { scope with
        symbols := scope.symbols ++
          (Symbol.firsts symbols).filter (·.name ∉ scope.symbols.map Symbol.name) } := by
  induction symbols with
  | nil =>
    intro scope
    simp [declareAll, Symbol.firsts]
  | cons symbol symbols ih =>
    intro scope
    have hstep : scope.declareAll (symbol :: symbols) =
        ((scope.declare? symbol).getD scope).declareAll symbols := rfl
    rw [hstep, getD_declare?, Symbol.firsts, List.filter_cons, List.filter_filter]
    by_cases htaken : symbol.name ∈ scope.symbols.map Symbol.name
    · rw [if_pos htaken, if_neg (by simpa using htaken), ih]
      congr 2
      refine List.filter_congr fun found _ => ?_
      by_cases hname : found.name = symbol.name
      · simp [hname, htaken]
      · simp [hname]
    · rw [if_neg htaken, if_pos (by simpa using htaken), ih]
      simp only [List.map_append, List.map_cons, List.map_nil, List.append_assoc,
        List.singleton_append]
      congr 3
      refine List.filter_congr fun found _ => ?_
      by_cases hname : found.name = symbol.name
      · simp [hname]
      · simp [hname]

/-- A scope that is opened and then filled holds the first symbol of each name. -/
theorem declareAll_opened (name : String) (parent : Option Nat) (symbols : List Symbol) :
    (⟨name, parent, []⟩ : Scope).declareAll symbols = ⟨name, parent, Symbol.firsts symbols⟩ := by
  rw [declareAll_eq]
  simp

end Scope

/-! ## 4. A table opened at its current scope -/

/-- The current scope of a table, with the scopes before it and those after it. -/
structure Focus where
  before : List Scope
  here : Scope
  after : List Scope

namespace Focus

/-- The table with this current scope. -/
def table (focus : Focus) : SymbolTable :=
  ⟨(focus.before ++ focus.here :: focus.after).toArray, focus.before.length⟩

/-- The number of the next scope. -/
def next (focus : Focus) : Nat := focus.before.length + 1 + focus.after.length

/-- The symbols are declared in the current scope, and the regions are opened inside it. -/
def grown (focus : Focus) (declared : List Symbol) (inner : List Outline) : Focus :=
  { focus with
    here := focus.here.declareAll declared
    after := focus.after ++ Outline.scopesAll focus.before.length focus.next inner }

/-- A new scope inside the current one. -/
def entered (focus : Focus) (name : String) : Focus :=
  ⟨focus.before ++ focus.here :: focus.after, ⟨name, some focus.before.length, []⟩, []⟩

variable (focus : Focus)

theorem grown_nil : focus.grown [] [] = focus := by
  rw [grown, Outline.scopesAll, List.append_nil]
  rfl

/-- Growing twice is growing once. -/
theorem grown_grown (declared declared' : List Symbol) (inner inner' : List Outline) :
    (focus.grown declared inner).grown declared' inner' =
      focus.grown (declared ++ declared') (inner ++ inner') := by
  have hnext : (focus.grown declared inner).next = focus.next + Outline.sizeAll inner := by
    unfold next grown
    rw [List.length_append, Outline.length_scopesAll, Nat.add_assoc _ focus.after.length]
  unfold grown at hnext ⊢
  rw [hnext, Scope.declareAll_append, Outline.scopesAll_append, List.append_assoc]

theorem table_enter (name : String) : focus.table.enter name = (focus.entered name).table := by
  simp [table, entered, SymbolTable.enter]

/-- A region that is entered, grows and is left again has its scopes after all others. -/
theorem table_leave (name : String) (declared : List Symbol) (inner : List Outline) :
    ((focus.entered name).grown declared inner).table.leave =
      (focus.grown [] [.region name declared inner]).table := by
  have hhere : ((focus.entered name).grown declared inner).here =
      ⟨name, some focus.before.length, Symbol.firsts declared⟩ := Scope.declareAll_opened _ _ _
  have hparent : ((focus.entered name).grown declared inner).table.parent?
      ((focus.entered name).grown declared inner).table.current = some focus.before.length := by
    rw [SymbolTable.parent?, SymbolTable.scope?, table]
    simp [hhere]
  have hnext : (focus.entered name).before.length = focus.next := by
    unfold entered next
    rw [List.length_append, List.length_cons]
    omega
  have hlater : (focus.entered name).next = focus.next + 1 := by
    rw [next, hnext]
    rfl
  rw [SymbolTable.leave, hparent, Option.getD_some]
  unfold table
  rw [hhere]
  unfold grown
  rw [hnext, hlater, Outline.scopesAll, Outline.scopesAll, Outline.scopes, List.append_nil]
  simp [entered, Scope.declareAll]

/-- A symbol is declared in the current scope, or refused there. -/
theorem table_declaring (symbol : Symbol) (error : SemanticError) :
    (Analysis.declaring focus.table focus.table.current symbol error).table =
      (focus.grown [symbol] []).table := by
  have hscope : focus.table.scope? focus.table.current = some focus.here := by
    rw [SymbolTable.scope?, table]
    simp
  have hgrown : focus.grown [symbol] [] =
      { focus with here := (focus.here.declare? symbol).getD focus.here } := by
    unfold grown
    rw [Outline.scopesAll, List.append_nil]
    rfl
  unfold Analysis.declaring
  rw [hgrown]
  cases hdeclare : focus.table.declare? focus.table.current symbol with
  | none =>
    have hrefused : focus.here.declare? symbol = none := by
      cases h : focus.here.declare? symbol with
      | none => rfl
      | some scope => simp [SymbolTable.declare?, hscope, h] at hdeclare
    rw [hrefused]
    rfl
  | some table' =>
    obtain ⟨scope, scope', hhere, hscope', rfl⟩ := SymbolTable.declare?_eq_some_iff.mp hdeclare
    cases hscope.symm.trans hhere
    rw [hscope']
    simp [table]

/-- A part of the program inside a region of its own. -/
theorem table_inScope (part : SymbolTable → Analysis) {name : String} {declared : List Symbol}
    {inner : List Outline} (h : (part (focus.entered name).table).table =
      ((focus.entered name).grown declared inner).table) :
    (Analysis.inScope focus.table name part).table =
      (focus.grown [] [.region name declared inner]).table := by
  rw [← table_leave, ← h, ← table_enter]
  rfl

end Focus

/-! ## 5. What the analysis makes of a table -/

theorem Analysis.table_declaringVars (ids : List Ident) : ∀ focus : Focus,
    (Analysis.declaringVars focus.table ids).table =
      (focus.grown (ids.map varSymbol) []).table := by
  induction ids with
  | nil =>
    intro focus
    rw [List.map_nil, Focus.grown_nil]
    rfl
  | cons id ids ih =>
    intro focus
    have hfirst : (Analysis.declaringVar focus.table id).table =
        (focus.grown [varSymbol id] []).table := focus.table_declaring _ _
    rw [Analysis.declaringVars, Analysis.table_andThen, hfirst, ih, Focus.grown_grown]
    rfl

theorem Declaration.table_analyze (focus : Focus) (decl : Declaration) :
    (decl.analyze focus.table).table = (focus.grown [varSymbol decl.target] []).table :=
  focus.table_declaring _ _

mutual

/-- **A statement declares its variable in the current scope and opens its regions there.** -/
theorem Stmt.table_analyze (focus : Focus) : (stmt : Stmt) →
    (stmt.analyze focus.table).table = (focus.grown (Stmt.declarations [stmt]) stmt.outlines).table
  | .declare decl => Declaration.table_analyze focus decl
  | .assign _ | .call _ _ | .ret _ _ => congrArg Focus.table focus.grown_nil.symm
  | .branch cond yes no => by
    have hyes := focus.table_inScope (Stmt.analyzeAll · yes)
      (Stmt.table_analyzeAll (focus.entered "block") yes)
    have hno := Stmt.table_analyzeElse
      (focus.grown [] [.region "block" (Stmt.declarations yes) (Stmt.outlinesAll yes)]) no
    rw [Focus.grown_grown, ← hyes] at hno
    exact hno
  | .loop init cond step body => by
    have hinit := Declaration.table_analyze (focus.entered "for-loop") init
    have hbody := Focus.table_inScope _ (Stmt.analyzeAll · body) (Stmt.table_analyzeAll
      (((focus.entered "for-loop").grown [varSymbol init.target] []).entered "block") body)
    rw [Focus.grown_grown, ← hinit] at hbody
    -- condition and step declare nothing, so the table after the body is the one that is left
    exact focus.table_inScope _ hbody

theorem Stmt.table_analyzeAll (focus : Focus) : (stmts : List Stmt) →
    (Stmt.analyzeAll focus.table stmts).table =
      (focus.grown (Stmt.declarations stmts) (Stmt.outlinesAll stmts)).table
  | [] => congrArg Focus.table focus.grown_nil.symm
  | stmt :: stmts => by
    have hstmts :=
      Stmt.table_analyzeAll (focus.grown (Stmt.declarations [stmt]) stmt.outlines) stmts
    have hdeclared : Stmt.declarations (stmt :: stmts) =
        Stmt.declarations [stmt] ++ Stmt.declarations stmts := by
      unfold Stmt.declarations
      rw [← List.map_append, ← List.filterMap_append, List.singleton_append]
    rw [Stmt.analyzeAll, Analysis.table_andThen, Stmt.table_analyze focus stmt, hstmts,
      Focus.grown_grown, hdeclared, Stmt.outlinesAll]

theorem Stmt.table_analyzeElse (focus : Focus) : (no : Option (List Stmt)) →
    (Stmt.analyzeElse focus.table no).table = (focus.grown [] (Stmt.outlinesElse no)).table
  | none => congrArg Focus.table focus.grown_nil.symm
  | some stmts =>
    focus.table_inScope (Stmt.analyzeAll · stmts)
      (Stmt.table_analyzeAll (focus.entered "block") stmts)

end

/-! ## 6. Programs -/

/-- A function is declared in the global scope, and its region is opened there. -/
theorem Function.table_analyze {focus : Focus} (hglobal : focus.before = []) (f : Function) :
    (f.analyze focus.table).table = (focus.grown [f.symbol] [f.outline]).table := by
  have hcurrent : focus.table.current = SymbolTable.globalScope := congrArg List.length hglobal
  have hname := focus.table_declaring f.symbol ⟨.redefined, f.id⟩
  have hparams := Analysis.table_declaringVars (f.params.map Param.id)
    ((focus.grown [f.symbol] []).entered f.id.name)
  have hbody := Stmt.table_analyzeAll (((focus.grown [f.symbol] []).entered f.id.name).grown
    ((f.params.map Param.id).map varSymbol) []) f.body
  rw [Focus.grown_grown, ← hparams, List.map_map] at hbody
  have hscope := Focus.table_inScope _ (fun table =>
    (Analysis.declaringVars table (f.params.map Param.id)).andThen (Stmt.analyzeAll · f.body)) hbody
  -- a function is declared in the global scope by its number, which is the current one here
  rw [Focus.grown_grown, ← hname, hcurrent] at hscope
  exact hscope

theorem Function.table_analyzeAll (fs : List Function) : ∀ {focus : Focus}, focus.before = [] →
    (Function.analyzeAll focus.table fs).table =
      (focus.grown (fs.map Function.symbol) (fs.map Function.outline)).table := by
  induction fs with
  | nil => exact fun _ => congrArg Focus.table (Focus.grown_nil _).symm
  | cons f fs ih =>
    intro focus hglobal
    have hfs : (focus.grown [f.symbol] [f.outline]).before = [] := hglobal
    rw [Function.analyzeAll, Analysis.table_andThen, Function.table_analyze hglobal, ih hfs,
      Focus.grown_grown]
    rfl

/-- **The scopes of the analysis are the outline of the program in preorder**, whether or not the
    program has errors, and the analysis ends in the global scope. -/
theorem Program.table_analyze_eq_outline (program : Program) :
    program.analyze.table =
      ⟨(program.outline.scopes none 0).toArray, SymbolTable.globalScope⟩ := by
  have hnew : SymbolTable.new = (Focus.mk [] ⟨"global", none, [Symbol.printf]⟩ []).table := rfl
  have hglobal : (⟨"global", none, [Symbol.printf]⟩ : Scope).declareAll
      (program.map Function.symbol) =
      ⟨"global", none, Symbol.firsts (Symbol.printf :: program.map Function.symbol)⟩ := by
    rw [← Scope.declareAll_opened]
    rfl
  rw [Program.analyze, hnew, Function.table_analyzeAll program rfl, Focus.grown, hglobal,
    Program.outline, Outline.scopes]
  rfl

-- the second `f` and the second `a` are refused, and the regions around them stay
example : (Program.outline
    [⟨.void, ⟨"f", 1⟩, [⟨.int, ⟨"a", 1⟩⟩],
      [.declare ⟨⟨"a", 2⟩, none⟩,
        .loop ⟨⟨"i", 3⟩, none⟩ (.ident ⟨"i", 3⟩) ⟨⟨"i", 3⟩, .ident ⟨"a", 3⟩⟩
          [.declare ⟨⟨"a", 4⟩, none⟩]]⟩,
      ⟨.int, ⟨"f", 5⟩, [], []⟩]).scopes none 0 =
    [⟨"global", none, [⟨"printf", .func [] none⟩, ⟨"f", .func ["a"] (some 1)⟩]⟩,
      ⟨"f", some 0, [⟨"a", .var 1⟩]⟩, ⟨"for-loop", some 1, [⟨"i", .var 3⟩]⟩,
      ⟨"block", some 2, [⟨"a", .var 4⟩]⟩, ⟨"f", some 0, []⟩] := by
  decide

end MiniC
