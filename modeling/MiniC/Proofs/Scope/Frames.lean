import MiniC.Scope.Analysis

/-!
# The frames in force

Seen from its current scope, a table is a stack of frames: the symbols of that scope, then those of
the scope around it, out to the global scope. Looking a name up walks over these frames and nothing
else. Entering a scope puts an empty frame on the stack and leaving it takes the frame off again,
so that the analysis of a part of a program only adds to the frame it starts in
(`SymbolTable.Grows`), whatever scopes it enters on its way.
-/

namespace MiniC

namespace SymbolTable

variable {table : SymbolTable}

/-! ## 1. Frames -/

/-- The current scope is there, and a scope comes after the scope around it. -/
structure WellFormed (table : SymbolTable) : Prop where
  current_lt : table.current < table.scopes.size
  parent_lt : ∀ i p, table.parent? i = some p → p < i

/-- The symbols declared directly in scope `i`. -/
def symbolsAt (table : SymbolTable) (i : Nat) : List Symbol :=
  ((table.scope? i).map Scope.symbols).getD []

/-- The symbols of scope `i` and of the scopes around it, from the inside out. -/
def framesFrom (table : SymbolTable) (i : Nat) : List (List Symbol) :=
  (table.ancestors i).map table.symbolsAt

/-- The frames seen from the current scope. -/
def frames (table : SymbolTable) : List (List Symbol) := table.framesFrom table.current

theorem wellFormed_new : new.WellFormed where
  current_lt := by decide
  parent_lt i p h := by
    match i with
    | 0 => cases h
    | i + 1 => simp [parent?, scope?, new] at h

theorem ancestors_of_root {i : Nat} (h : table.parent? i = none) : table.ancestors i = [i] := by
  rw [ancestors, h]

theorem ancestors_of_parent {i p : Nat} (h : table.parent? i = some p) (hlt : p < i) :
    table.ancestors i = i :: table.ancestors p := by
  rw [ancestors, h]
  exact if_pos hlt

/-- Only the parents decide which scopes are around a scope. -/
theorem ancestors_congr {table' : SymbolTable} (i : Nat)
    (h : ∀ j, j ≤ i → table'.parent? j = table.parent? j) :
    table'.ancestors i = table.ancestors i := by
  rw [ancestors, ancestors, h i (Nat.le_refl i)]
  cases table.parent? i with
  | none => rfl
  | some p =>
    by_cases hlt : p < i
    · have ih := ancestors_congr p fun j hj => h j (by omega)
      simp only [if_pos hlt, ih]
    · simp only [if_neg hlt]

theorem le_of_mem_ancestors {i : Nat} (j : Nat) (h : i ∈ table.ancestors j) : i ≤ j := by
  rw [ancestors] at h
  cases hp : table.parent? j with
  | none =>
    simp only [hp, List.mem_singleton] at h
    exact Nat.le_of_eq h
  | some p =>
    simp only [hp] at h
    split at h
    case isTrue hlt =>
      rcases List.mem_cons.mp h with rfl | h
      · exact Nat.le_refl _
      · have := le_of_mem_ancestors p h
        omega
    case isFalse =>
      rw [List.mem_singleton] at h
      exact Nat.le_of_eq h

/-- **Looking a name up goes through the frames, the innermost first.** -/
theorem lookup_eq_findSome?_frames (table : SymbolTable) (name : String) :
    table.lookup name = table.frames.findSome? fun symbols => symbols.find? (·.name = name) := by
  rw [lookup, lookupFrom, frames, framesFrom, List.findSome?_map]
  congr 1
  funext i
  rw [Function.comp_apply, symbolsAt]
  cases table.scope? i <;> rfl

/-! ## 2. Entering and declaring -/

theorem scope?_enter_of_lt {i : Nat} (h : i < table.scopes.size) (name : String) :
    (table.enter name).scope? i = table.scope? i := by
  rw [scope?, scopes_enter, Array.getElem?_push, if_neg (by omega), scope?]

theorem scope?_enter_new (table : SymbolTable) (name : String) :
    (table.enter name).scope? table.scopes.size = some ⟨name, some table.current, []⟩ := by
  rw [scope?, scopes_enter, Array.getElem?_push_size]

theorem parent?_enter_of_lt {i : Nat} (h : i < table.scopes.size) (name : String) :
    (table.enter name).parent? i = table.parent? i := by
  rw [parent?, scope?_enter_of_lt h, parent?]

theorem parent?_enter_new (table : SymbolTable) (name : String) :
    (table.enter name).parent? table.scopes.size = some table.current := by
  rw [parent?, scope?_enter_new]
  rfl

theorem symbolsAt_enter_of_lt {i : Nat} (h : i < table.scopes.size) (name : String) :
    (table.enter name).symbolsAt i = table.symbolsAt i := by
  rw [symbolsAt, scope?_enter_of_lt h, symbolsAt]

theorem symbolsAt_enter_new (table : SymbolTable) (name : String) :
    (table.enter name).symbolsAt table.scopes.size = [] := by
  rw [symbolsAt, scope?_enter_new]
  rfl

theorem WellFormed.enter (h : table.WellFormed) (name : String) :
    (table.enter name).WellFormed where
  current_lt := by simp
  parent_lt i p hp := by
    rcases Nat.lt_trichotomy i table.scopes.size with hlt | rfl | hgt
    · rw [parent?_enter_of_lt hlt] at hp
      exact h.parent_lt i p hp
    · rw [parent?_enter_new] at hp
      cases hp
      exact h.current_lt
    · rw [parent?, scope?, scopes_enter, Array.getElem?_push, if_neg (by omega),
        Array.getElem?_eq_none (by omega)] at hp
      cases hp

/-- A declaration adds its symbol to the scope it is made in, which did not hold the name, and
    leaves everything else alone. -/
theorem of_declare? {table' : SymbolTable} {i : Nat} {symbol : Symbol}
    (h : table.declare? i symbol = some table') :
    table'.current = table.current ∧ table'.scopes.size = table.scopes.size ∧
      (∀ j, table'.parent? j = table.parent? j) ∧
      (∀ j, j ≠ i → table'.symbolsAt j = table.symbolsAt j) ∧
      table'.symbolsAt i = table.symbolsAt i ++ [symbol] ∧
      ∀ s ∈ table.symbolsAt i, s.name ≠ symbol.name := by
  obtain ⟨scope, scope', hscope, hdeclare, htable⟩ := declare?_eq_some_iff.mp h
  obtain ⟨hfree, hscope'⟩ := Scope.declare?_eq_some_iff.mp hdeclare
  have hi : i < table.scopes.size := by
    rw [scope?] at hscope
    exact (Array.getElem?_eq_some_iff.mp hscope).1
  have hother : ∀ j, j ≠ i → table'.scope? j = table.scope? j := fun j hj => by
    rw [htable, scope?, Array.getElem?_setIfInBounds, if_neg (Ne.symm hj), scope?]
  have hhere : table'.scope? i = some scope' := by
    rw [htable, scope?, Array.getElem?_setIfInBounds, if_pos rfl, if_pos hi]
  refine ⟨by rw [htable], by rw [htable, Array.size_setIfInBounds], fun j => ?_, fun j hj => ?_, ?_,
    ?_⟩
  · by_cases hj : j = i
    · rw [parent?, hj, hhere, hscope', parent?, hscope]
      rfl
    · rw [parent?, hother j hj, parent?]
  · rw [symbolsAt, hother j hj, symbolsAt]
  · rw [symbolsAt, hhere, hscope', symbolsAt, hscope]
    rfl
  · rw [symbolsAt, hscope]
    exact Scope.get?_eq_none_iff.mp hfree

/-- A declaration in a scope that is there fails exactly when the scope holds the name. -/
theorem declare?_eq_none_iff {i : Nat} (hi : i < table.scopes.size) (symbol : Symbol) :
    table.declare? i symbol = none ↔ ∃ s ∈ table.symbolsAt i, s.name = symbol.name := by
  obtain ⟨scope, hscope⟩ : ∃ scope, table.scope? i = some scope :=
    ⟨_, Array.getElem?_eq_getElem hi⟩
  have hsymbols : table.symbolsAt i = scope.symbols := by
    rw [symbolsAt, hscope]
    rfl
  have hdeclare : table.declare? i symbol = none ↔ scope.declare? symbol = none := by
    unfold declare?
    rw [hscope]
    cases h : scope.declare? symbol <;> simp [h]
  rw [hdeclare, hsymbols, Scope.declare?]
  cases hget : scope.get? symbol.name with
  | none =>
    have hfree := Scope.get?_eq_none_iff.mp hget
    simpa using hfree
  | some s =>
    have hmem : ∃ s ∈ scope.symbols, s.name = symbol.name :=
      ⟨s, Scope.mem_of_get? hget, Scope.name_of_get? hget⟩
    simpa using hmem

theorem framesFrom_enter (h : table.WellFormed) (name : String) :
    (table.enter name).framesFrom table.current = table.frames := by
  rw [frames, framesFrom, framesFrom]
  have hlt := h.current_lt
  rw [ancestors_congr table.current fun j hj => parent?_enter_of_lt (by omega) name]
  refine List.map_congr_left fun j hj => symbolsAt_enter_of_lt ?_ name
  have := le_of_mem_ancestors _ hj
  omega

/-- Entering a scope puts an empty frame on the stack. -/
theorem frames_enter (h : table.WellFormed) (name : String) :
    (table.enter name).frames = [] :: table.frames := by
  have hparent := parent?_enter_new table name
  rw [frames, current_enter, framesFrom, ancestors_of_parent hparent h.current_lt, List.map_cons,
    symbolsAt_enter_new, ← framesFrom_enter h name, framesFrom]

/-! ## 3. Growth -/

/-- `table'` came from `table` by adding symbols to the current scope and opening scopes that were
    left again. -/
structure Grows (table table' : SymbolTable) (added : List Symbol) : Prop where
  wellFormed : table'.WellFormed
  current : table'.current = table.current
  size_le : table.scopes.size ≤ table'.scopes.size
  parent : ∀ i < table.scopes.size, table'.parent? i = table.parent? i
  other : ∀ i < table.scopes.size, i ≠ table.current → table'.symbolsAt i = table.symbolsAt i
  here : table'.symbolsAt table.current = table.symbolsAt table.current ++ added

theorem Grows.refl (h : table.WellFormed) : Grows table table [] where
  wellFormed := h
  current := rfl
  size_le := Nat.le_refl _
  parent _ _ := rfl
  other _ _ _ := rfl
  here := (List.append_nil _).symm

theorem Grows.trans {table' table'' : SymbolTable} {added added' : List Symbol}
    (h : Grows table table' added) (h' : Grows table' table'' added') :
    Grows table table'' (added ++ added') where
  wellFormed := h'.wellFormed
  current := h'.current.trans h.current
  size_le := Nat.le_trans h.size_le h'.size_le
  parent i hi := (h'.parent i (Nat.lt_of_lt_of_le hi h.size_le)).trans (h.parent i hi)
  other i hi hne :=
    (h'.other i (Nat.lt_of_lt_of_le hi h.size_le) (by rw [h.current]; exact hne)).trans
      (h.other i hi hne)
  here := by rw [← h.current, h'.here, h.current, h.here, List.append_assoc]

/-- Growth shows only in the innermost frame. -/
theorem Grows.frames {table' : SymbolTable} {added : List Symbol} (hwf : table.WellFormed)
    (h : Grows table table' added) :
    ∃ frame outer, table.frames = frame :: outer ∧ table'.frames = (frame ++ added) :: outer := by
  have hlt := hwf.current_lt
  have hancestors : table'.ancestors table.current = table.ancestors table.current :=
    ancestors_congr table.current fun j hj => h.parent j (by omega)
  rw [SymbolTable.frames, SymbolTable.frames, framesFrom, framesFrom, h.current, hancestors]
  cases hparent : table.parent? table.current with
  | none =>
    rw [ancestors_of_root hparent]
    exact ⟨_, [], rfl, by rw [List.map_singleton, h.here]⟩
  | some p =>
    have hp := hwf.parent_lt _ _ hparent
    rw [ancestors_of_parent hparent hp]
    refine ⟨_, _, rfl, ?_⟩
    rw [List.map_cons, h.here]
    congr 1
    refine List.map_congr_left fun j hj => h.other j ?_ ?_
    · have := le_of_mem_ancestors _ hj
      omega
    · have := le_of_mem_ancestors _ hj
      omega

/-- Entering a scope hides nothing. -/
theorem lookup_enter (h : table.WellFormed) (name x : String) :
    (table.enter name).lookup x = table.lookup x := by
  rw [lookup_eq_findSome?_frames, lookup_eq_findSome?_frames, frames_enter h]
  rfl

/-- What is found after growth was added or could be found before. -/
theorem Grows.of_lookup {table' : SymbolTable} {added : List Symbol} (hwf : table.WellFormed)
    (h : Grows table table' added) {x : String} {symbol : Symbol}
    (hx : table'.lookup x = some symbol) : symbol ∈ added ∨ table.lookup x = some symbol := by
  obtain ⟨frame, outer, hframes, hframes'⟩ := h.frames hwf
  rw [lookup_eq_findSome?_frames, hframes', List.findSome?_cons, List.find?_append] at hx
  rw [lookup_eq_findSome?_frames, hframes, List.findSome?_cons]
  cases hframe : frame.find? (·.name = x) with
  | some found =>
    rw [hframe] at hx
    exact .inr hx
  | none =>
    rw [hframe, Option.none_or] at hx
    cases hadded : added.find? (·.name = x) with
    | some found =>
      rw [hadded] at hx
      cases hx
      exact .inl (List.mem_of_find?_eq_some hadded)
    | none =>
      rw [hadded] at hx
      exact .inr hx

/-- What happens in a scope that is entered and left again does not show. -/
theorem Grows.leave {table' : SymbolTable} {added : List Symbol} {name : String}
    (hwf : table.WellFormed) (h : Grows (table.enter name) table' added) :
    Grows table table'.leave [] := by
  have hsize : table.scopes.size < (table.enter name).scopes.size := by simp
  have hcurrent : table'.leave.current = table.current := by
    show (table'.parent? table'.current).getD table'.current = table.current
    rw [h.current, current_enter, h.parent _ hsize, parent?_enter_new]
    rfl
  have hlt := hwf.current_lt
  refine ⟨⟨?_, h.wellFormed.parent_lt⟩, hcurrent, ?_, ?_, ?_, ?_⟩
  · have := h.size_le
    rw [hcurrent, scopes_leave]
    omega
  · have := h.size_le
    rw [scopes_leave]
    omega
  · intro i hi
    exact (h.parent i (by omega)).trans (parent?_enter_of_lt hi name)
  · intro i hi _
    exact (h.other i (by omega) (by rw [current_enter]; omega)).trans
      (symbolsAt_enter_of_lt hi name)
  · rw [List.append_nil]
    exact (h.other _ (by omega) (by rw [current_enter]; omega)).trans
      (symbolsAt_enter_of_lt hlt name)

theorem WellFormed.declare? {table' : SymbolTable} {i : Nat} {symbol : Symbol}
    (hwf : table.WellFormed) (h : table.declare? i symbol = some table') : table'.WellFormed := by
  obtain ⟨hcurrent, hsize, hparent, -⟩ := of_declare? h
  refine ⟨?_, fun j p hp => hwf.parent_lt j p ?_⟩
  · rw [hcurrent, hsize]
    exact hwf.current_lt
  · rw [← hparent j]
    exact hp

/-- A declaration in the current scope adds its symbol there. -/
theorem Grows.declare? {table' : SymbolTable} {symbol : Symbol} (hwf : table.WellFormed)
    (h : table.declare? table.current symbol = some table') : Grows table table' [symbol] := by
  obtain ⟨hcurrent, hsize, hparent, hother, hhere, -⟩ := of_declare? h
  exact ⟨hwf.declare? h, hcurrent, Nat.le_of_eq hsize.symm, fun i _ => hparent i,
    fun i _ hne => hother i hne, hhere⟩

end SymbolTable

/-! ## 4. What the analysis adds -/

open SymbolTable

/-- The variables that the identifiers declare. -/
def varSymbol (id : Ident) : Symbol := ⟨id.name, .var id.line⟩

namespace Analysis

variable {table : SymbolTable}

theorem grows_declaringVar (hwf : table.WellFormed) (id : Ident) :
    ∃ added, Grows table (declaringVar table id).table added ∧ ∀ s ∈ added, s = varSymbol id := by
  unfold declaringVar declaring
  cases h : table.declare? table.current ⟨id.name, .var id.line⟩ with
  | none => exact ⟨[], .refl hwf, fun s hs => absurd hs List.not_mem_nil⟩
  | some table' =>
    exact ⟨[varSymbol id], .declare? hwf h, fun s hs => List.mem_singleton.mp hs⟩

theorem grows_declaringVars (ids : List Ident) : ∀ {table : SymbolTable}, table.WellFormed →
    ∃ added, Grows table (declaringVars table ids).table added ∧
      ∀ s ∈ added, ∃ id ∈ ids, s = varSymbol id := by
  induction ids with
  | nil => exact fun hwf => ⟨[], .refl hwf, fun s hs => absurd hs List.not_mem_nil⟩
  | cons id ids ih =>
    intro table hwf
    obtain ⟨added, hgrows, hadded⟩ := grows_declaringVar hwf id
    obtain ⟨later, hgrows', hlater⟩ := ih hgrows.wellFormed
    refine ⟨added ++ later, hgrows.trans hgrows', fun s hs => ?_⟩
    rcases List.mem_append.mp hs with hs | hs
    · exact ⟨id, List.mem_cons_self, hadded s hs⟩
    · obtain ⟨id', hid', heq⟩ := hlater s hs
      exact ⟨id', List.mem_cons_of_mem _ hid', heq⟩

end Analysis

/-- The name that a statement declares in the scope it stands in. -/
def Stmt.declared? : Stmt → Option Ident
  | .declare decl => some decl.target
  | _ => none

theorem Declaration.grows_analyze {table : SymbolTable} (hwf : table.WellFormed)
    (decl : Declaration) :
    ∃ added, Grows table (decl.analyze table).table added ∧
      ∀ s ∈ added, s = varSymbol decl.target :=
  Analysis.grows_declaringVar hwf decl.target

mutual

/-- **The analysis of a statement adds at most the variable it declares to the frame it starts
    in.** -/
theorem Stmt.grows_analyze {table : SymbolTable} (hwf : table.WellFormed) : (stmt : Stmt) →
    ∃ added, Grows table (stmt.analyze table).table added ∧
      ∀ s ∈ added, ∃ id ∈ stmt.declared?, s = varSymbol id
  | .declare decl => by
    obtain ⟨added, hgrows, hadded⟩ := Declaration.grows_analyze hwf decl
    exact ⟨added, hgrows, fun s hs => ⟨decl.target, rfl, hadded s hs⟩⟩
  | .assign _ | .call _ _ | .ret _ _ =>
    ⟨[], .refl hwf, fun s hs => absurd hs List.not_mem_nil⟩
  | .branch cond yes no => by
    obtain ⟨added, hyes, -⟩ := Stmt.grows_analyzeAll (hwf.enter "block") yes
    have hleave := hyes.leave hwf
    exact ⟨[], hleave.trans (Stmt.grows_analyzeElse hleave.wellFormed no),
      fun s hs => absurd hs List.not_mem_nil⟩
  | .loop init cond step body => by
    obtain ⟨added, hinit, -⟩ := Declaration.grows_analyze (hwf.enter "for-loop") init
    obtain ⟨inner, hbody, -⟩ := Stmt.grows_analyzeAll (hinit.wellFormed.enter "block") body
    have hhead := hinit.trans (hbody.leave hinit.wellFormed)
    exact ⟨[], hhead.leave hwf, fun s hs => absurd hs List.not_mem_nil⟩

theorem Stmt.grows_analyzeAll {table : SymbolTable} (hwf : table.WellFormed) :
    (stmts : List Stmt) →
    ∃ added, Grows table (Stmt.analyzeAll table stmts).table added ∧
      ∀ s ∈ added, ∃ stmt ∈ stmts, ∃ id ∈ stmt.declared?, s = varSymbol id
  | [] => ⟨[], .refl hwf, fun s hs => absurd hs List.not_mem_nil⟩
  | stmt :: stmts => by
    obtain ⟨added, hstmt, hadded⟩ := Stmt.grows_analyze hwf stmt
    obtain ⟨later, hstmts, hlater⟩ := Stmt.grows_analyzeAll hstmt.wellFormed stmts
    refine ⟨added ++ later, hstmt.trans hstmts, fun s hs => ?_⟩
    rcases List.mem_append.mp hs with hs | hs
    · exact ⟨stmt, List.mem_cons_self, hadded s hs⟩
    · obtain ⟨stmt', hmem, h⟩ := hlater s hs
      exact ⟨stmt', List.mem_cons_of_mem _ hmem, h⟩

theorem Stmt.grows_analyzeElse {table : SymbolTable} (hwf : table.WellFormed) :
    (no : Option (List Stmt)) → Grows table (Stmt.analyzeElse table no).table []
  | none => .refl hwf
  | some stmts => by
    obtain ⟨added, hstmts, -⟩ := Stmt.grows_analyzeAll (hwf.enter "block") stmts
    exact hstmts.leave hwf

end

/-! ## 5. Functions -/

theorem Function.grows_body {table : SymbolTable} (hwf : table.WellFormed) (f : Function) :
    Grows table (Analysis.inScope table f.id.name fun table =>
      (Analysis.declaringVars table (f.params.map Param.id)).andThen
        (Stmt.analyzeAll · f.body)).table [] := by
  obtain ⟨params, hparams, -⟩ :=
    Analysis.grows_declaringVars (f.params.map Param.id) (hwf.enter f.id.name)
  obtain ⟨locals, hbody, -⟩ := Stmt.grows_analyzeAll hparams.wellFormed f.body
  exact (hparams.trans hbody).leave hwf

/-- The analysis of a function adds at most its own symbol to the global scope, and without an
    error the name was not there before. -/
theorem Function.grows_analyze {table : SymbolTable} (hwf : table.WellFormed)
    (hglobal : table.current = globalScope) (f : Function) :
    ∃ added, Grows table (f.analyze table).table added ∧ (∀ s ∈ added, s = f.symbol) ∧
      ((f.analyze table).errors = [] →
        added = [f.symbol] ∧ ∀ s ∈ table.symbolsAt globalScope, s.name ≠ f.id.name) := by
  unfold Function.analyze Analysis.declaring
  rw [← hglobal]
  cases h : table.declare? table.current f.symbol with
  | none =>
    refine ⟨[], Function.grows_body hwf f, fun s hs => absurd hs List.not_mem_nil, ?_⟩
    intro herrors
    rw [Analysis.errors_andThen] at herrors
    cases herrors
  | some table' =>
    have hgrows := Grows.declare? hwf h
    obtain ⟨-, -, -, -, -, hfresh⟩ := of_declare? h
    refine ⟨[f.symbol], ?_, fun s hs => List.mem_singleton.mp hs, fun _ => ⟨rfl, hfresh⟩⟩
    exact hgrows.trans (Function.grows_body hgrows.wellFormed f)

/-- **The functions of a program without errors have different names**, and none has a name that
    is there before them. -/
theorem Function.grows_analyzeAll (fs : List Function) : ∀ {table : SymbolTable},
    table.WellFormed → table.current = globalScope →
    ∃ added, Grows table (Function.analyzeAll table fs).table added ∧
      (∀ s ∈ added, ∃ f ∈ fs, s = f.symbol) ∧
      ((Function.analyzeAll table fs).errors = [] →
        (fs.map (·.id.name)).Nodup ∧
          ∀ s ∈ table.symbolsAt globalScope, ∀ f ∈ fs, s.name ≠ f.id.name) := by
  induction fs with
  | nil =>
    intro table hwf _
    exact ⟨[], .refl hwf, fun s hs => absurd hs List.not_mem_nil,
      fun _ => ⟨.nil, fun _ _ _ hf => absurd hf List.not_mem_nil⟩⟩
  | cons f fs ih =>
    intro table hwf hglobal
    obtain ⟨added, hf, hadded, hfresh⟩ := Function.grows_analyze hwf hglobal f
    obtain ⟨later, hfs, hlater, hdistinct⟩ := ih hf.wellFormed (hf.current.trans hglobal)
    refine ⟨added ++ later, hf.trans hfs, fun s hs => ?_, fun herrors => ?_⟩
    · rcases List.mem_append.mp hs with hs | hs
      · exact ⟨f, List.mem_cons_self, hadded s hs⟩
      · obtain ⟨g, hg, heq⟩ := hlater s hs
        exact ⟨g, List.mem_cons_of_mem _ hg, heq⟩
    · rw [Function.analyzeAll, Analysis.errors_andThen, List.append_eq_nil_iff] at herrors
      obtain ⟨hmine, hfree⟩ := hfresh herrors.1
      obtain ⟨hnodup, hothers⟩ := hdistinct herrors.2
      have hhere := hf.here
      rw [hglobal] at hhere
      rw [hhere, hmine] at hothers
      refine ⟨List.nodup_cons.mpr ⟨fun hmem => ?_, hnodup⟩, fun s hs g hg => ?_⟩
      · obtain ⟨g, hg, hname⟩ := List.mem_map.mp hmem
        exact hothers f.symbol (List.mem_append_right _ (List.mem_singleton.mpr rfl)) g hg
          hname.symm
      · rcases List.mem_cons.mp hg with rfl | hg
        · exact hfree s hs
        · exact hothers s (List.mem_append_left _ hs) g hg

/-- Whether the symbol is a variable or parameter. -/
def Symbol.isVariable (symbol : Symbol) : Bool :=
  match symbol.meaning with
  | .var _ => true
  | .func _ _ => false

/-- No variable is in force between two functions. -/
theorem Function.isVariable_lookup_analyzeAll (fs : List Function) {x : String} {symbol : Symbol}
    (h : (Function.analyzeAll new fs).table.lookup x = some symbol) :
    symbol.isVariable = false := by
  obtain ⟨added, hgrows, hadded, -⟩ := Function.grows_analyzeAll fs wellFormed_new rfl
  rcases hgrows.of_lookup wellFormed_new h with hmem | hnew
  · obtain ⟨f, -, rfl⟩ := hadded symbol hmem
    rfl
  · have hmem := List.mem_of_find?_eq_some (l := [Symbol.printf]) (p := (·.name = x)) (a := symbol)
      (by simpa [lookup_eq_findSome?_frames, frames, framesFrom, new, globalScope,
        ancestors_of_root, parent?, scope?, symbolsAt] using hnew)
    rw [List.mem_singleton.mp hmem]
    rfl

end MiniC
