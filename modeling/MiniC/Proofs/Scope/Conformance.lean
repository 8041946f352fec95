import MiniC.Proofs.Scope.Frames
import MiniC.Proofs.Scope.Surroundings

/-!
# The analysis follows the scoping rules

The table of the analysis keeps every scope and moves a cursor. Seen from its current scope it
shows the regions around the place that the analysis has reached (`SymbolTable.Shows`). Entering a
scope, declaring a name and leaving a scope keep to this view, so each part of a program is judged
by the analysis as the rules judge it.
-/

namespace MiniC

open SymbolTable

/-! ## 1. What a table shows -/

/-- What a symbol's name is bound to. -/
def Symbol.entity (symbol : Symbol) : Entity :=
  match symbol.meaning with
  | .var _ => .variable
  | .func _ _ => .function

/-- The names that the symbols bind. -/
def Region.ofSymbols (symbols : List Symbol) : Region :=
  symbols.map fun symbol => (symbol.name, symbol.entity)

theorem Region.lookup_ofSymbols (symbols : List Symbol) (x : String) :
    (Region.ofSymbols symbols).lookup x = (symbols.find? (·.name = x)).map Symbol.entity := by
  induction symbols with
  | nil => rfl
  | cons symbol symbols ih =>
    show List.lookup x ((symbol.name, symbol.entity) :: Region.ofSymbols symbols) = _
    rw [List.lookup_cons, List.find?_cons]
    by_cases h : symbol.name = x
    · simp [h]
    · have hne : (x == symbol.name) = false := by simpa using Ne.symm h
      rw [hne, ih, decide_eq_false h]

/-- **Seen from its current scope, the table shows these regions.** -/
structure SymbolTable.Shows (table : SymbolTable) (around : Surroundings) : Prop where
  wellFormed : table.WellFormed
  frames : table.frames.map Region.ofSymbols = around.inner :: around.outer

namespace SymbolTable.Shows

variable {table table' : SymbolTable} {around : Surroundings}

theorem new : Shows SymbolTable.new .initial where
  wellFormed := wellFormed_new
  frames := by
    rw [SymbolTable.frames, framesFrom, ancestors_of_root (by rfl)]
    rfl

/-- A name is looked up as it is resolved. -/
theorem lookup (h : table.Shows around) (x : String) :
    (table.lookup x).map Symbol.entity = around.resolve? x := by
  rw [lookup_eq_findSome?_frames, Surroundings.resolve?, ← h.frames, List.findSome?_map]
  induction table.frames with
  | nil => rfl
  | cons symbols frames ih =>
    rw [List.findSome?_cons, List.findSome?_cons, Function.comp_apply, Region.lookup_ofSymbols]
    cases symbols.find? (·.name = x) with
    | none => exact ih
    | some symbol => rfl

theorem enter (h : table.Shows around) (name : String) : (table.enter name).Shows around.enter where
  wellFormed := h.wellFormed.enter name
  frames := by
    rw [frames_enter h.wellFormed, List.map_cons, h.frames]
    rfl

/-- Symbols added to the current scope are names bound in the innermost region. -/
theorem grows {added : List Symbol} (h : table.Shows around) (hgrows : Grows table table' added) :
    table'.Shows ⟨around.inner ++ Region.ofSymbols added, around.outer⟩ where
  wellFormed := hgrows.wellFormed
  frames := by
    obtain ⟨frame, outer, hframes, hframes'⟩ := hgrows.frames h.wellFormed
    have hshown := h.frames
    rw [hframes, List.map_cons, List.cons.injEq] at hshown
    obtain ⟨hinner, houter⟩ := hshown
    rw [hframes', List.map_cons, houter, ← hinner, Region.ofSymbols, List.map_append]
    rfl

theorem unchanged (h : table.Shows around) (hgrows : Grows table table' []) :
    table'.Shows around := by
  have h' := h.grows hgrows
  rwa [show Region.ofSymbols [] = [] from rfl, List.append_nil] at h'

/-- The innermost region holds the names of the current scope. -/
theorem inner_eq (h : table.Shows around) :
    around.inner = Region.ofSymbols (table.symbolsAt table.current) := by
  obtain ⟨frame, outer, hframes, -⟩ := (Grows.refl h.wellFormed).frames h.wellFormed
  have hshown := h.frames
  rw [hframes, List.map_cons, List.cons.injEq] at hshown
  rw [← hshown.1]
  congr 1
  have hhead : table.frames.head? = some (table.symbolsAt table.current) := by
    rw [SymbolTable.frames, framesFrom, List.head?_map]
    have hfirst : (table.ancestors table.current).head? = some table.current := by
      rw [ancestors]
      split
      · rfl
      · split <;> rfl
    rw [hfirst]
    rfl
  rw [hframes] at hhead
  exact Option.some.inj hhead

theorem binds_iff (h : table.Shows around) (x : String) :
    around.binds x = true ↔ ∃ symbol ∈ table.symbolsAt table.current, symbol.name = x := by
  rw [Surroundings.binds, h.inner_eq, Region.lookup_ofSymbols, Option.isSome_map,
    List.find?_isSome]
  simp

end SymbolTable.Shows

/-! ## 2. Declaring -/

namespace Analysis

variable {table : SymbolTable} {around : Surroundings}

/-- A symbol is declared in the current scope as its name is bound in the innermost region. -/
theorem shows_declaring (h : table.Shows around) (symbol : Symbol) (error : SemanticError) :
    (declaring table table.current symbol error).table.Shows
        (around.bind symbol.name symbol.entity) ∧
      (declaring table table.current symbol error).errors =
        if around.binds symbol.name then [error] else [] := by
  have hbinds := h.binds_iff symbol.name
  rw [← declare?_eq_none_iff h.wellFormed.current_lt] at hbinds
  unfold declaring Surroundings.bind
  cases hdeclare : table.declare? table.current symbol with
  | none =>
    have htaken : around.binds symbol.name = true := hbinds.mpr hdeclare
    rw [if_pos htaken, if_pos htaken]
    exact ⟨h, rfl⟩
  | some table' =>
    have hfree : ¬ around.binds symbol.name = true := by
      intro htaken
      rw [hbinds.mp htaken] at hdeclare
      cases hdeclare
    rw [if_neg hfree, if_neg hfree]
    exact ⟨h.grows (.declare? h.wellFormed hdeclare), rfl⟩

theorem shows_declaringVar (h : table.Shows around) (id : Ident) :
    (declaringVar table id).table.Shows (around.bind id.name .variable) ∧
      (declaringVar table id).errors.map SemanticError.diagnostic =
        Occurrence.complaints [⟨.declares, id, around⟩] := by
  obtain ⟨hshows, herrors⟩ := shows_declaring h ⟨id.name, .var id.line⟩ ⟨.redeclared, id⟩
  refine ⟨hshows, ?_⟩
  rw [declaringVar, herrors, Occurrence.complaints]
  by_cases htaken : around.binds id.name = true
  · simp [Occurrence.complaint?, htaken, SemanticError.diagnostic, SemanticError.message]
  · simp [Occurrence.complaint?, htaken]

/-- Parameters are declared as the rules bind them. -/
theorem shows_declaringVars (ids : List Ident) : ∀ {table : SymbolTable} {around : Surroundings},
    table.Shows around →
      (declaringVars table ids).table.Shows (around.bindVariables ids) ∧
        (declaringVars table ids).errors.map SemanticError.diagnostic =
          Occurrence.complaints (Ident.occurrencesAll around ids) := by
  induction ids with
  | nil => exact fun h => ⟨h, rfl⟩
  | cons id ids ih =>
    intro table around h
    obtain ⟨hshows, hid⟩ := shows_declaringVar h id
    obtain ⟨hshows', hids⟩ := ih hshows
    refine ⟨hshows', ?_⟩
    rw [declaringVars, errors_andThen, List.map_append, hid, hids, Ident.occurrencesAll,
      ← Occurrence.complaints_append]
    rfl

end Analysis

/-! ## 3. Expressions -/

theorem Ident.diagnostics_misuses {table : SymbolTable} {around : Surroundings}
    (h : table.Shows around) (id : Ident) :
    (id.misuses table.lookup).map SemanticError.diagnostic =
      Occurrence.complaints [⟨.mentions, id, around⟩] := by
  have hlookup := h.lookup id.name
  unfold Ident.misuses Occurrence.complaints
  cases hfound : table.lookup id.name with
  | none =>
    rw [hfound, Option.map_none] at hlookup
    simp [Occurrence.complaint?, ← hlookup, SemanticError.diagnostic, SemanticError.message]
  | some symbol =>
    rw [hfound, Option.map_some] at hlookup
    simp [Occurrence.complaint?, ← hlookup]

theorem Ident.diagnostics_callMisuses {table : SymbolTable} {around : Surroundings}
    (h : table.Shows around) (callee : Ident) :
    (callee.callMisuses table.lookup).map SemanticError.diagnostic =
      Occurrence.complaints [⟨.calls, callee, around⟩] := by
  have hlookup := h.lookup callee.name
  unfold Ident.callMisuses Occurrence.complaints
  cases hfound : table.lookup callee.name with
  | none =>
    rw [hfound, Option.map_none] at hlookup
    simp [Occurrence.complaint?, ← hlookup, SemanticError.diagnostic, SemanticError.message]
  | some symbol =>
    obtain ⟨name, meaning⟩ := symbol
    rw [hfound, Option.map_some] at hlookup
    cases meaning with
    | var line =>
      simp [Occurrence.complaint?, ← hlookup, Symbol.entity, SemanticError.diagnostic,
        SemanticError.message]
    | func params line => simp [Occurrence.complaint?, ← hlookup, Symbol.entity]

mutual

/-- **The names of an expression are judged as the rules judge them.** -/
theorem Expr.diagnostics_misuses {table : SymbolTable} {around : Surroundings}
    (h : table.Shows around) : (e : Expr) →
    (e.misuses table.lookup).map SemanticError.diagnostic =
      Occurrence.complaints (e.occurrences around)
  | .number _ => rfl
  | .string _ => rfl
  | .ident id => Ident.diagnostics_misuses h id
  | .binary op left right => by
    have hleft := Expr.diagnostics_misuses h left
    have hright := Expr.diagnostics_misuses h right
    rw [Expr.misuses, Expr.occurrences, List.map_append, Occurrence.complaints_append, hleft,
      hright]
  | .unary op operand => Expr.diagnostics_misuses h operand
  | .call callee args => by
    have hcallee := Ident.diagnostics_callMisuses h callee
    have hargs := Expr.diagnostics_misusesAll h args
    rw [Expr.misuses, Expr.occurrences, List.map_append, Occurrence.complaints_cons, hcallee,
      hargs]

theorem Expr.diagnostics_misusesAll {table : SymbolTable} {around : Surroundings}
    (h : table.Shows around) : (es : List Expr) →
    (Expr.misusesAll table.lookup es).map SemanticError.diagnostic =
      Occurrence.complaints (Expr.occurrencesAll around es)
  | [] => rfl
  | e :: es => by
    have he := Expr.diagnostics_misuses h e
    have hes := Expr.diagnostics_misusesAll h es
    rw [Expr.misusesAll, Expr.occurrencesAll, List.map_append, Occurrence.complaints_append, he,
      hes]

end

theorem Expr.diagnostics_misusesOption {table : SymbolTable} {around : Surroundings}
    (h : table.Shows around) (e : Option Expr) :
    ((e.map (Expr.misuses table.lookup)).getD []).map SemanticError.diagnostic =
      Occurrence.complaints (Expr.occurrencesOption around e) := by
  cases e with
  | none => rfl
  | some e => exact Expr.diagnostics_misuses h e

theorem Assignment.diagnostics_misuses {table : SymbolTable} {around : Surroundings}
    (h : table.Shows around) (a : Assignment) :
    (a.misuses table.lookup).map SemanticError.diagnostic =
      Occurrence.complaints (a.occurrences around) := by
  have htarget := Ident.diagnostics_misuses h a.target
  have hvalue := Expr.diagnostics_misuses h a.value
  rw [Assignment.misuses, Assignment.occurrences, List.map_append, Occurrence.complaints_cons,
    htarget, hvalue]

/-! ## 4. Statements -/

namespace Analysis

/-- The analysis finds what the rules find wrong with `os`, and its table shows `after`. -/
structure Judges (a : Analysis) (os : List Occurrence) (after : Surroundings) : Prop where
  shows : a.table.Shows after
  diagnostics : a.errors.map SemanticError.diagnostic = Occurrence.complaints os

variable {table : SymbolTable} {a : Analysis} {os os' : List Occurrence}
  {around after : Surroundings}

theorem Judges.andThen {next : SymbolTable → Analysis} (h : a.Judges os around)
    (h' : (next a.table).Judges os' after) : (a.andThen next).Judges (os ++ os') after where
  shows := h'.shows
  diagnostics := by
    rw [errors_andThen, List.map_append, h.diagnostics, h'.diagnostics,
      Occurrence.complaints_append]

theorem Judges.checking (h : a.Judges os around)
    (misuses : (String → Option Symbol) → List SemanticError)
    (h' : (misuses a.table.lookup).map SemanticError.diagnostic = Occurrence.complaints os') :
    (a.checking misuses).Judges (os ++ os') around where
  shows := h.shows
  diagnostics := by
    rw [Analysis.checking, List.map_append, h.diagnostics, h', Occurrence.complaints_append]

/-- A part that only looks names up. -/
theorem judges_checking (h : table.Shows around)
    (misuses : (String → Option Symbol) → List SemanticError)
    (h' : (misuses table.lookup).map SemanticError.diagnostic = Occurrence.complaints os) :
    (checking ⟨table, []⟩ misuses).Judges os around :=
  have hstart : Judges ⟨table, []⟩ [] around := ⟨h, rfl⟩
  hstart.checking misuses h'

/-- After a scope is left, the table shows what it showed before the scope was entered. -/
theorem judges_inScope {name : String} {added : List Symbol} (h : table.Shows around)
    (part : SymbolTable → Analysis)
    (hgrows : Grows (table.enter name) (part (table.enter name)).table added)
    (hpart : (part (table.enter name)).errors.map SemanticError.diagnostic =
      Occurrence.complaints os) :
    (inScope table name part).Judges os around where
  shows := h.unchanged (hgrows.leave h.wellFormed)
  diagnostics := hpart

end Analysis

open Analysis

theorem Declaration.judges_analyze {table : SymbolTable} {around : Surroundings}
    (h : table.Shows around) (decl : Declaration) :
    (decl.analyze table).Judges (decl.occurrences around)
      (around.bind decl.target.name .variable) := by
  obtain ⟨hshows, htarget⟩ := shows_declaringVar h decl.target
  have hdeclared : (declaringVar table decl.target).Judges [⟨.declares, decl.target, around⟩]
      (around.bind decl.target.name .variable) := ⟨hshows, htarget⟩
  exact hdeclared.checking _ (Expr.diagnostics_misusesOption hshows decl.init)

mutual

/-- **A statement is judged as the rules judge it.** -/
theorem Stmt.judges_analyze {table : SymbolTable} {around : Surroundings}
    (h : table.Shows around) : (stmt : Stmt) →
    (stmt.analyze table).Judges (stmt.occurrences around) (stmt.after around)
  | .declare decl => Declaration.judges_analyze h decl
  | .assign a => judges_checking h a.misuses (Assignment.diagnostics_misuses h a)
  | .call callee args =>
    judges_checking h (Expr.call callee args).misuses (Expr.diagnostics_misuses h _)
  | .ret value line =>
    judges_checking h (fun lookup => (value.map (Expr.misuses lookup)).getD [])
      (Expr.diagnostics_misusesOption h value)
  | .branch cond yes no => by
    have hcond := judges_checking h cond.misuses (Expr.diagnostics_misuses h cond)
    obtain ⟨added, hgrows, -⟩ := Stmt.grows_analyzeAll (h.wellFormed.enter "block") yes
    have hyes := judges_inScope h (Stmt.analyzeAll · yes) hgrows
      (Stmt.diagnostics_analyzeAll (h.enter "block") yes)
    have hno := Stmt.judges_analyzeElse hyes.shows no
    rw [Stmt.analyze, Stmt.occurrences, List.append_assoc]
    exact hcond.andThen (hyes.andThen hno)
  | .loop init cond step body => by
    have hinit := Declaration.judges_analyze (h.enter "for-loop") init
    have hcond := hinit.checking cond.misuses (Expr.diagnostics_misuses hinit.shows cond)
    have hstep := hcond.checking step.misuses (Assignment.diagnostics_misuses hcond.shows step)
    obtain ⟨added, hgrows, -⟩ := Declaration.grows_analyze (h.wellFormed.enter "for-loop") init
    obtain ⟨inner, hgrows', -⟩ := Stmt.grows_analyzeAll (hgrows.wellFormed.enter "block") body
    have hbody := judges_inScope hstep.shows (Stmt.analyzeAll · body) hgrows'
      (Stmt.diagnostics_analyzeAll (hstep.shows.enter "block") body)
    rw [Stmt.analyze, Stmt.occurrences]
    exact judges_inScope h _ (hgrows.trans (hgrows'.leave hgrows.wellFormed))
      (hstep.andThen hbody).diagnostics

theorem Stmt.diagnostics_analyzeAll {table : SymbolTable} {around : Surroundings}
    (h : table.Shows around) : (stmts : List Stmt) →
    (Stmt.analyzeAll table stmts).errors.map SemanticError.diagnostic =
      Occurrence.complaints (Stmt.occurrencesAll around stmts)
  | [] => rfl
  | stmt :: stmts => by
    have hstmt := Stmt.judges_analyze h stmt
    have hstmts := Stmt.diagnostics_analyzeAll hstmt.shows stmts
    rw [Stmt.analyzeAll, Stmt.occurrencesAll, errors_andThen, List.map_append,
      hstmt.diagnostics, hstmts, Occurrence.complaints_append]

theorem Stmt.judges_analyzeElse {table : SymbolTable} {around : Surroundings}
    (h : table.Shows around) : (no : Option (List Stmt)) →
    (Stmt.analyzeElse table no).Judges (Stmt.occurrencesElse around no) around
  | none => ⟨h, rfl⟩
  | some stmts => by
    obtain ⟨added, hgrows, -⟩ := Stmt.grows_analyzeAll (h.wellFormed.enter "block") stmts
    exact judges_inScope h (Stmt.analyzeAll · stmts) hgrows
      (Stmt.diagnostics_analyzeAll (h.enter "block") stmts)

end

/-! ## 5. Programs -/

/-- **A function is judged as the rules judge it**, when the global scope is the current one. -/
theorem Function.judges_analyze {table : SymbolTable} {around : Surroundings}
    (h : table.Shows around) (hglobal : table.current = globalScope) (f : Function) :
    (f.analyze table).Judges (f.occurrences around) (around.bind f.id.name .function) := by
  obtain ⟨hshows, herrors⟩ := shows_declaring h f.symbol ⟨.redefined, f.id⟩
  have hname : (declaring table table.current f.symbol ⟨.redefined, f.id⟩).Judges
      [⟨.defines, f.id, around⟩] (around.bind f.id.name .function) := by
    refine ⟨hshows, ?_⟩
    rw [herrors]
    show _ = Occurrence.complaints _
    by_cases htaken : around.binds f.id.name = true
    · simp [Function.symbol, Occurrence.complaints, Occurrence.complaint?, htaken,
        SemanticError.diagnostic, SemanticError.message]
    · simp [Function.symbol, Occurrence.complaints, Occurrence.complaint?, htaken]
  obtain ⟨hparams, hparams'⟩ :=
    shows_declaringVars (f.params.map Param.id) (hname.shows.enter f.id.name)
  have hopened : (declaringVars _ (f.params.map Param.id)).Judges _
    (f.bodySurroundings around) := ⟨hparams, hparams'⟩
  obtain ⟨params, hgrows, -⟩ :=
    grows_declaringVars (f.params.map Param.id) (hname.shows.wellFormed.enter f.id.name)
  obtain ⟨locals, hgrows', -⟩ := Stmt.grows_analyzeAll hgrows.wellFormed f.body
  rw [Function.analyze, Function.occurrences, ← hglobal]
  refine hname.andThen (judges_inScope hname.shows _ (hgrows.trans hgrows') ?_)
  have hbody := Stmt.diagnostics_analyzeAll hopened.shows f.body
  rw [errors_andThen, List.map_append, hopened.diagnostics, hbody, ← Occurrence.complaints_append]
  rfl

/-- **The diagnostics of functions are the complaints about their names**, when the global scope is
    the current one. -/
theorem Function.diagnostics_analyzeAll (fs : List Function) :
    ∀ {table : SymbolTable} {around : Surroundings}, table.Shows around →
      table.current = globalScope →
      (Function.analyzeAll table fs).errors.map SemanticError.diagnostic =
        Occurrence.complaints (Function.occurrencesAll around fs) := by
  induction fs with
  | nil => exact fun _ _ => rfl
  | cons f fs ih =>
    intro table around h hglobal
    have hf := Function.judges_analyze h hglobal f
    obtain ⟨added, hgrows, -⟩ := Function.grows_analyze h.wellFormed hglobal f
    have hfs := ih hf.shows (hgrows.current.trans hglobal)
    rw [Function.analyzeAll, Function.occurrencesAll, errors_andThen, List.map_append,
      hf.diagnostics, hfs, Occurrence.complaints_append]

/-- **The analysis finds exactly what the scoping rules forbid.** Its diagnostics are those of the
    occurrences of names in the program: the same messages at the same lines, in the same order,
    one for each occurrence that is wrong and none besides. -/
theorem Program.diagnostics_analyze_eq_complaints (program : Program) :
    program.analyze.errors.map SemanticError.diagnostic =
      Occurrence.complaints program.occurrences :=
  Function.diagnostics_analyzeAll program .new rfl

end MiniC
