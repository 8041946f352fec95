import Mathlib
import MiniC.Proofs.Scope.Frames

/-!
# What operations make of a symbol table

A table comes about by entering scopes, leaving them and declaring symbols in scopes that are there,
in any order. One operation keeps the table consistent (`SymbolTable.Consistent`), takes nothing
away from it (`SymbolTable.Persists`) and adds to a scope exactly the symbol it declares there, so
the same holds of every run of operations (`SymbolTable.Run`).

A scope keeps its symbols in one list. The same symbols can be kept in two containers, a map from
names to symbols and the names in the order of their declaration (`Register`); a run leaves both in
step with the list. Main statement: `SymbolTable.consistent_of_run`.
-/

namespace MiniC

namespace SymbolTable

variable {table table' : SymbolTable}

/-! ## 1. Operations and runs -/

/-- An operation on a symbol table. -/
inductive Operation where
  | enter (name : String)
  | leave
  | declare (scope : Nat) (symbol : Symbol)
  deriving DecidableEq, Repr

/-- A symbol can be declared only in a scope that is there. -/
def Operation.Applies (table : SymbolTable) : Operation → Prop
  | .enter _ => True
  | .leave => True
  | .declare i _ => i < table.scopes.size

instance (table : SymbolTable) : (op : Operation) → Decidable (op.Applies table)
  | .enter _ => inferInstanceAs (Decidable True)
  | .leave => inferInstanceAs (Decidable True)
  | .declare i _ => inferInstanceAs (Decidable (i < table.scopes.size))

/-- The table after an operation. A declaration that is refused leaves it as it is. -/
def perform (table : SymbolTable) : Operation → SymbolTable
  | .enter name => table.enter name
  | .leave => table.leave
  | .declare i symbol => (table.declare? i symbol).getD table

/-- The symbol that an operation declares, with the number of its scope; none if the operation
    declares nothing or is refused. -/
def added (table : SymbolTable) : Operation → List (Nat × Symbol)
  | .enter _ => []
  | .leave => []
  | .declare i symbol => if (table.declare? i symbol).isSome then [(i, symbol)] else []

/-- **`table'` is what the operations make of `table`**, each of them applying where it is used. -/
inductive Run : SymbolTable → List Operation → SymbolTable → Prop where
  | nil (table : SymbolTable) : Run table [] table
  | cons {table table' : SymbolTable} {op : Operation} {ops : List Operation}
      (applies : op.Applies table) (run : Run (table.perform op) ops table') :
      Run table (op :: ops) table'

theorem Run.append {table'' : SymbolTable} {ops ops' : List Operation} (h : Run table ops table')
    (h' : Run table' ops' table'') : Run table (ops ++ ops') table'' := by
  induction h with
  | nil => exact h'
  | cons applies _ ih => exact .cons applies (ih h')

/-- The declarations of a run that were not refused, in order. -/
def accepted (table : SymbolTable) : List Operation → List (Nat × Symbol)
  | [] => []
  | op :: ops => table.added op ++ (table.perform op).accepted ops

/-- The symbols that a history of declarations puts into scope `i`, in order. -/
def declaredIn (i : Nat) (history : List (Nat × Symbol)) : List Symbol :=
  (history.filter (·.1 = i)).map Prod.snd

@[simp] theorem declaredIn_nil (i : Nat) : declaredIn i [] = [] := rfl

@[simp] theorem declaredIn_append (i : Nat) (history later : List (Nat × Symbol)) :
    declaredIn i (history ++ later) = declaredIn i history ++ declaredIn i later := by
  rw [declaredIn, List.filter_append, List.map_append, declaredIn, declaredIn]

/-! ## 2. What an operation adds -/

theorem scope?_eq_none_iff {i : Nat} : table.scope? i = none ↔ table.scopes.size ≤ i :=
  Array.getElem?_eq_none_iff

theorem symbolsAt_of_size_le {i : Nat} (h : table.scopes.size ≤ i) : table.symbolsAt i = [] := by
  rw [symbolsAt, scope?_eq_none_iff.mpr h]
  rfl

theorem symbolsAt_enter (table : SymbolTable) (name : String) (i : Nat) :
    (table.enter name).symbolsAt i = table.symbolsAt i := by
  rcases Nat.lt_trichotomy i table.scopes.size with hlt | rfl | hgt
  · exact symbolsAt_enter_of_lt hlt name
  · rw [symbolsAt_enter_new, symbolsAt_of_size_le (Nat.le_refl _)]
  · rw [symbolsAt_of_size_le (Nat.le_of_lt hgt), symbolsAt_of_size_le]
    rw [scopes_enter, Array.size_push]
    exact hgt

theorem symbolsAt_new (i : Nat) :
    new.symbolsAt i = declaredIn i [(globalScope, Symbol.printf)] := by
  cases i with
  | zero => rfl
  | succ i => exact symbolsAt_of_size_le (Nat.le_add_left 1 i)

/-- An operation adds to each scope what it declares there. -/
theorem symbolsAt_perform (table : SymbolTable) (op : Operation) (i : Nat) :
    (table.perform op).symbolsAt i = table.symbolsAt i ++ declaredIn i (table.added op) := by
  cases op with
  | enter name => rw [perform, symbolsAt_enter, added, declaredIn_nil, List.append_nil]
  | leave => exact (List.append_nil _).symm
  | declare j symbol =>
    rw [perform, added]
    cases h : table.declare? j symbol with
    | none => exact (List.append_nil _).symm
    | some table' =>
      obtain ⟨-, -, -, hother, hhere, -⟩ := of_declare? h
      rw [Option.getD_some, Option.isSome_some, if_pos rfl]
      by_cases hji : j = i
      · subst hji
        rw [hhere]
        simp [declaredIn]
      · rw [hother i (Ne.symm hji)]
        simp [declaredIn, hji]

/-- **A scope holds what it held before a run and then what the run declared in it, in the order of
    declaration.** -/
theorem Run.symbolsAt_eq {ops : List Operation} (h : Run table ops table') (i : Nat) :
    table'.symbolsAt i = table.symbolsAt i ++ declaredIn i (table.accepted ops) := by
  induction h with
  | nil => rw [accepted, declaredIn_nil, List.append_nil]
  | cons _ _ ih => rw [ih, symbolsAt_perform, accepted, declaredIn_append, List.append_assoc]

/-! ## 3. What an operation leaves alone -/

/-- Every scope of `table` is there in `table'` under its number, with its name, its parent and its
    symbols; new symbols come after the old ones. -/
def Persists (table table' : SymbolTable) : Prop :=
  ∀ i scope, table.scope? i = some scope →
    ∃ scope', table'.scope? i = some scope' ∧ scope'.name = scope.name ∧
      scope'.parent = scope.parent ∧ scope.symbols <+: scope'.symbols

theorem Persists.refl (table : SymbolTable) : table.Persists table :=
  fun _ scope h => ⟨scope, h, rfl, rfl, List.prefix_refl _⟩

theorem Persists.trans {table'' : SymbolTable} (h : table.Persists table')
    (h' : table'.Persists table'') : table.Persists table'' := by
  intro i scope hscope
  obtain ⟨scope', hscope', hname, hparent, hsymbols⟩ := h i scope hscope
  obtain ⟨scope'', hscope'', hname', hparent', hsymbols'⟩ := h' i scope' hscope'
  exact ⟨scope'', hscope'', hname'.trans hname, hparent'.trans hparent,
    hsymbols.trans hsymbols'⟩

theorem persists_declare? {i : Nat} {symbol : Symbol} (h : table.declare? i symbol = some table') :
    table.Persists table' := by
  obtain ⟨scope, scope', hscope, hdeclare, rfl⟩ := declare?_eq_some_iff.mp h
  obtain ⟨-, rfl⟩ := Scope.declare?_eq_some_iff.mp hdeclare
  have hi : i < table.scopes.size := (Array.getElem?_eq_some_iff.mp hscope).1
  intro j found hfound
  by_cases hij : i = j
  · subst hij
    have hsame : scope = found := Option.some.inj (hscope.symm.trans hfound)
    subst hsame
    refine ⟨{ scope with symbols := scope.symbols ++ [symbol] }, ?_, rfl, rfl,
      List.prefix_append _ _⟩
    rw [scope?, Array.getElem?_setIfInBounds, if_pos rfl, if_pos hi]
  · refine ⟨found, ?_, rfl, rfl, List.prefix_refl _⟩
    rw [scope?, Array.getElem?_setIfInBounds, if_neg hij]
    exact hfound

/-- An operation takes no scope and no symbol away. -/
theorem persists_perform (table : SymbolTable) (op : Operation) :
    table.Persists (table.perform op) := by
  cases op with
  | enter name =>
    intro i scope hscope
    have hi : i < table.scopes.size := (Array.getElem?_eq_some_iff.mp hscope).1
    exact ⟨scope, (scope?_enter_of_lt hi name).trans hscope, rfl, rfl, List.prefix_refl _⟩
  | leave => exact Persists.refl table
  | declare i symbol =>
    rw [perform]
    cases h : table.declare? i symbol with
    | none => exact Persists.refl table
    | some table' => exact persists_declare? h

theorem Run.persists {ops : List Operation} (h : Run table ops table') : table.Persists table' := by
  induction h with
  | nil table => exact Persists.refl table
  | @cons table _ op _ _ _ ih => exact (persists_perform table op).trans ih

/-! ## 4. Consistency -/

/-- **The scopes form a tree with the global scope at its root**, the current scope is one of them,
    and no scope holds two symbols of one name. -/
structure Consistent (table : SymbolTable) : Prop where
  wellFormed : table.WellFormed
  global : ∃ scope, table.scope? globalScope = some scope ∧ scope.name = "global"
  parent?_eq_none_iff : ∀ i < table.scopes.size, table.parent? i = none ↔ i = globalScope
  nodup_names : ∀ i, ((table.symbolsAt i).map Symbol.name).Nodup

theorem consistent_new : new.Consistent where
  wellFormed := wellFormed_new
  global := ⟨_, rfl, rfl⟩
  parent?_eq_none_iff i hi := by
    have hzero : i = 0 := Nat.lt_one_iff.mp hi
    subst hzero
    exact ⟨fun _ => rfl, fun _ => rfl⟩
  nodup_names i := by
    cases i with
    | zero => exact List.nodup_singleton _
    | succ i =>
      rw [symbolsAt_new]
      exact List.nodup_nil

/-- A scope that persists keeps its parent. -/
theorem Persists.parent?_eq (h : table.Persists table') {i : Nat} (hi : i < table.scopes.size) :
    table'.parent? i = table.parent? i := by
  have hscope : table.scope? i = some table.scopes[i] := Array.getElem?_eq_getElem hi
  obtain ⟨scope', hscope', -, hparent, -⟩ := h i _ hscope
  rw [parent?, parent?, hscope', hscope]
  exact hparent

theorem Persists.global (h : table.Persists table')
    (hglobal : ∃ scope, table.scope? globalScope = some scope ∧ scope.name = "global") :
    ∃ scope, table'.scope? globalScope = some scope ∧ scope.name = "global" := by
  obtain ⟨scope, hscope, hname⟩ := hglobal
  obtain ⟨scope', hscope', hname', -, -⟩ := h _ scope hscope
  exact ⟨scope', hscope', hname'.trans hname⟩

theorem WellFormed.leave (h : table.WellFormed) : table.leave.WellFormed where
  current_lt := by
    show (table.parent? table.current).getD table.current < table.scopes.size
    cases hparent : table.parent? table.current with
    | none => exact h.current_lt
    | some p => exact Nat.lt_trans (h.parent_lt _ _ hparent) h.current_lt
  parent_lt := h.parent_lt

theorem WellFormed.perform (h : table.WellFormed) (op : Operation) :
    (table.perform op).WellFormed := by
  cases op with
  | enter name => exact h.enter name
  | leave => exact h.leave
  | declare i symbol =>
    rw [SymbolTable.perform]
    cases hdeclare : table.declare? i symbol with
    | none => exact h
    | some table' => exact h.declare? hdeclare

/-- The name of a symbol that a scope takes is free in that scope. -/
theorem nodup_names_perform (h : ∀ i, ((table.symbolsAt i).map Symbol.name).Nodup)
    (op : Operation) (i : Nat) : (((table.perform op).symbolsAt i).map Symbol.name).Nodup := by
  cases op with
  | enter name =>
    rw [perform, symbolsAt_enter]
    exact h i
  | leave => exact h i
  | declare j symbol =>
    rw [perform]
    cases hdeclare : table.declare? j symbol with
    | none => exact h i
    | some table' =>
      obtain ⟨-, -, -, hother, hhere, hfree⟩ := of_declare? hdeclare
      rw [Option.getD_some]
      by_cases hij : i = j
      · subst hij
        rw [hhere, List.map_append, List.map_singleton]
        refine List.nodup_append.mpr ⟨h i, List.nodup_singleton _, ?_⟩
        intro name hname name' hname' heq
        obtain ⟨found, hfound, rfl⟩ := List.mem_map.mp hname
        exact hfree found hfound (heq.trans (List.mem_singleton.mp hname'))
      · rw [hother i hij]
        exact h i

/-- **An operation keeps a table consistent.** -/
theorem Consistent.perform (h : table.Consistent) (op : Operation) :
    (table.perform op).Consistent where
  wellFormed := h.wellFormed.perform op
  global := (persists_perform table op).global h.global
  parent?_eq_none_iff i hi := by
    by_cases hold : i < table.scopes.size
    · rw [(persists_perform table op).parent?_eq hold]
      exact h.parent?_eq_none_iff i hold
    · -- only entering a scope makes a new one, and that one has the current scope around it
      cases op with
      | enter name =>
        have hnew : i = table.scopes.size := by
          rw [SymbolTable.perform, scopes_enter, Array.size_push] at hi
          omega
        have hpos := h.wellFormed.current_lt
        rw [hnew, SymbolTable.perform, parent?_enter_new, globalScope]
        exact iff_of_false (Option.some_ne_none _) (by omega)
      | leave => exact absurd hi hold
      | declare j symbol =>
        rw [SymbolTable.perform] at hi
        cases hdeclare : table.declare? j symbol with
        | none =>
          rw [hdeclare] at hi
          exact absurd hi hold
        | some table' =>
          rw [hdeclare, Option.getD_some, (of_declare? hdeclare).2.1] at hi
          exact absurd hi hold
  nodup_names := nodup_names_perform h.nodup_names op

theorem Run.consistent {ops : List Operation} (h : Run table ops table')
    (hstart : table.Consistent) : table'.Consistent := by
  induction h with
  | nil => exact hstart
  | @cons _ _ op _ _ _ ih => exact ih (hstart.perform op)

/-- The path leads from scope `i` from parent to parent out to the global scope. -/
structure LeadsOut (table : SymbolTable) (i : Nat) (path : List Nat) : Prop where
  head : path.head? = some i
  last : path.getLast? = some globalScope
  chain : path.IsChain fun j p => table.parent? j = some p
  decreasing : path.Pairwise (· > ·)

/-- **The scopes around a scope are a strictly decreasing path to the global scope.** -/
theorem Consistent.leadsOut_ancestors (h : table.Consistent) (i : Nat)
    (hi : i < table.scopes.size) : table.LeadsOut i (table.ancestors i) := by
  cases hparent : table.parent? i with
  | none =>
    have hroot : i = globalScope := (h.parent?_eq_none_iff i hi).mp hparent
    rw [ancestors_of_root hparent]
    exact ⟨rfl, congrArg some hroot, List.isChain_singleton i, List.pairwise_singleton _ i⟩
  | some p =>
    have hlt := h.wellFormed.parent_lt i p hparent
    obtain ⟨hhead, hlast, hchain, hdecreasing⟩ :=
      Consistent.leadsOut_ancestors h p (Nat.lt_trans hlt hi)
    rw [ancestors_of_parent hparent hlt]
    obtain ⟨path, hpath⟩ := List.head?_eq_some_iff.mp hhead
    rw [hpath] at hlast hchain ⊢
    refine ⟨rfl, ?_, List.isChain_cons_cons.mpr ⟨hparent, hchain⟩, ?_⟩
    · rw [List.getLast?_cons_cons]
      exact hlast
    · rw [← hpath]
      refine List.pairwise_cons.mpr ⟨fun j hj => ?_, hdecreasing⟩
      exact Nat.lt_of_le_of_lt (le_of_mem_ancestors p hj) hlt

end SymbolTable

/-! ## 5. Two containers -/

/-- The symbols of a scope in two containers: each symbol under its name, and the names in the
    order of declaration. -/
structure Register where
  order : List String
  byName : Std.HashMap String Symbol

namespace Register

open SymbolTable

/-- A register without symbols. -/
def empty : Register := ⟨[], ∅⟩

/-- The register with one more symbol, none of that name being there yet; otherwise nothing. -/
def declare? (register : Register) (symbol : Symbol) : Option Register :=
  if symbol.name ∈ register.byName then none
  else some ⟨register.order ++ [symbol.name], register.byName.insert symbol.name symbol⟩

/-- The symbols in the order of their names. A name that the map does not know is left out. -/
def symbols (register : Register) : List Symbol :=
  register.order.filterMap fun name => register.byName[name]?

/-- One register for each scope, after an operation. -/
def perform (registers : Array Register) : Operation → Array Register
  | .enter _ => registers.push empty
  | .leave => registers
  | .declare i symbol =>
    registers.modify i fun register => (register.declare? symbol).getD register

/-- The registers after a run that starts with the register of `printf` alone. -/
def run (ops : List Operation) : Array Register :=
  ops.foldl perform #[(empty.declare? Symbol.printf).getD empty]

/-- Both containers hold the symbols of the list. -/
structure Records (register : Register) (symbols : List Symbol) : Prop where
  order_eq : register.order = symbols.map Symbol.name
  getElem?_eq : ∀ name, register.byName[name]? = symbols.find? (·.name = name)

theorem records_empty : empty.Records [] where
  order_eq := rfl
  getElem?_eq name := by simp [empty]

variable {register : Register} {symbols : List Symbol}

theorem Records.mem_byName_iff (h : register.Records symbols) (name : String) :
    name ∈ register.byName ↔ ∃ s ∈ symbols, s.name = name := by
  rw [← Std.HashMap.isSome_getElem?_iff_mem, h.getElem?_eq, List.find?_isSome]
  simp only [decide_eq_true_eq]

/-- A name that is taken is refused. -/
theorem Records.declare?_of_taken (h : register.Records symbols) {symbol : Symbol}
    (htaken : ∃ s ∈ symbols, s.name = symbol.name) : register.declare? symbol = none :=
  if_pos ((h.mem_byName_iff symbol.name).mpr htaken)

/-- A symbol of a free name goes into both containers. -/
theorem Records.declare?_of_free (h : register.Records symbols) {symbol : Symbol}
    (hfree : ∀ s ∈ symbols, s.name ≠ symbol.name) :
    ∃ register', register.declare? symbol = some register' ∧
      register'.Records (symbols ++ [symbol]) := by
  have hmem : symbol.name ∉ register.byName := fun hmem => by
    obtain ⟨s, hs, hname⟩ := (h.mem_byName_iff symbol.name).mp hmem
    exact hfree s hs hname
  refine ⟨_, if_neg hmem, ⟨?_, fun name => ?_⟩⟩
  · rw [List.map_append, ← h.order_eq]
    rfl
  · rw [Std.HashMap.getElem?_insert, List.find?_append, ← h.getElem?_eq]
    by_cases hname : symbol.name = name
    · subst hname
      simp [Std.HashMap.getElem?_eq_none hmem]
    · simp [hname]

theorem find?_name_of_mem {symbols : List Symbol} (hnodup : (symbols.map Symbol.name).Nodup)
    {symbol : Symbol} (h : symbol ∈ symbols) :
    symbols.find? (·.name = symbol.name) = some symbol := by
  induction symbols with
  | nil => cases h
  | cons first symbols ih =>
    obtain ⟨hfirst, hnodup⟩ := List.nodup_cons.mp hnodup
    rcases List.mem_cons.mp h with rfl | h
    · exact List.find?_cons_of_pos (by simp)
    · have hne : first.name ≠ symbol.name := fun heq =>
        hfirst (heq ▸ List.mem_map_of_mem h)
      rw [List.find?_cons_of_neg (by simpa using hne), ih hnodup h]

/-- **The two containers fit together**: no name comes twice, the names are those the map knows,
    each symbol stands under its own name, and listing gives every symbol. -/
structure Consistent (register : Register) : Prop where
  nodup_order : register.order.Nodup
  mem_order_iff : ∀ name, name ∈ register.order ↔ name ∈ register.byName
  name_eq : ∀ (name : String) (symbol : Symbol), register.byName[name]? = some symbol →
    symbol.name = name

theorem Records.consistent (h : register.Records symbols)
    (hnodup : (symbols.map Symbol.name).Nodup) : register.Consistent where
  nodup_order := h.order_eq ▸ hnodup
  mem_order_iff name := by
    rw [h.mem_byName_iff, h.order_eq, List.mem_map]
  name_eq name symbol hsymbol := by
    rw [h.getElem?_eq] at hsymbol
    simpa using List.find?_some hsymbol

theorem Records.symbols_eq (h : register.Records symbols)
    (hnodup : (symbols.map Symbol.name).Nodup) : register.symbols = symbols := by
  have hfound : ∀ symbol ∈ symbols, register.byName[symbol.name]? = some symbol :=
    fun symbol hmem => (h.getElem?_eq _).trans (find?_name_of_mem hnodup hmem)
  rw [Register.symbols, h.order_eq, List.filterMap_map]
  calc symbols.filterMap ((fun name => register.byName[name]?) ∘ Symbol.name)
      = symbols.filterMap some := List.filterMap_congr hfound
    _ = symbols := List.filterMap_some

/-- There is a register for each scope, and it holds the symbols of the scope. -/
structure Mirrors (registers : Array Register) (table : SymbolTable) : Prop where
  size_eq : registers.size = table.scopes.size
  records : ∀ (i : Nat) (register : Register), registers[i]? = some register →
    register.Records (table.symbolsAt i)

variable {registers : Array Register} {table table' : SymbolTable}

theorem mirrors_new : Mirrors #[(empty.declare? Symbol.printf).getD empty] new where
  size_eq := rfl
  records i register h := by
    have hfree : ∀ s ∈ ([] : List Symbol), s.name ≠ Symbol.printf.name := List.forall_mem_nil _
    obtain ⟨first, hfirst, hrecords⟩ := records_empty.declare?_of_free hfree
    rw [hfirst, Option.getD_some] at h
    obtain ⟨hi, hregister⟩ := Array.getElem?_eq_some_iff.mp h
    have hzero : i = 0 := Nat.lt_one_iff.mp hi
    subst hzero
    subst hregister
    exact hrecords

/-- An operation on the table and on the registers keeps them in step. -/
theorem Mirrors.perform (h : Mirrors registers table) {op : Operation}
    (happlies : op.Applies table) :
    Mirrors (perform registers op) (table.perform op) := by
  cases op with
  | leave => exact ⟨h.size_eq, h.records⟩
  | enter name =>
    refine ⟨?_, fun i register hregister => ?_⟩
    · rw [Register.perform, SymbolTable.perform, scopes_enter, Array.size_push, Array.size_push,
        h.size_eq]
    · rw [SymbolTable.perform, symbolsAt_enter]
      rw [Register.perform, Array.getElem?_push] at hregister
      split at hregister
      case isTrue hnew =>
        cases hregister
        rw [symbolsAt_of_size_le (by rw [hnew, h.size_eq])]
        exact records_empty
      case isFalse => exact h.records i register hregister
  | declare i symbol =>
    rw [Register.perform, SymbolTable.perform]
    cases hdeclare : table.declare? i symbol with
    | none =>
      have htaken := (declare?_eq_none_iff happlies symbol).mp hdeclare
      refine ⟨Array.size_modify.trans h.size_eq, fun j register hregister => ?_⟩
      rw [Array.getElem?_modify] at hregister
      split at hregister
      case isTrue hij =>
        subst hij
        obtain ⟨old, hold, rfl⟩ := Option.map_eq_some_iff.mp hregister
        have hrecords := h.records i old hold
        rw [hrecords.declare?_of_taken htaken]
        exact hrecords
      case isFalse => exact h.records j register hregister
    | some table' =>
      obtain ⟨-, hsize, -, hother, hhere, hfree⟩ := of_declare? hdeclare
      refine ⟨(Array.size_modify.trans h.size_eq).trans hsize.symm, fun j register hregister => ?_⟩
      rw [Array.getElem?_modify] at hregister
      rw [Option.getD_some]
      split at hregister
      case isTrue hij =>
        subst hij
        obtain ⟨old, hold, rfl⟩ := Option.map_eq_some_iff.mp hregister
        obtain ⟨register', hsome, hrecords⟩ := (h.records i old hold).declare?_of_free hfree
        rw [hsome, hhere]
        exact hrecords
      case isFalse hij =>
        rw [hother j (Ne.symm hij)]
        exact h.records j register hregister

theorem Mirrors.run {ops : List Operation} (hrun : Run table ops table') :
    ∀ {registers : Array Register}, Mirrors registers table →
      Mirrors (ops.foldl Register.perform registers) table' := by
  induction hrun with
  | nil => exact fun h => h
  | cons happlies _ ih => exact fun h => ih (h.perform happlies)

end Register

/-! ## 6. Reachable tables -/

namespace SymbolTable

variable {table : SymbolTable}

/-- **Every table that operations make of the new one is consistent.** Its scopes are a tree, with
    the parents in front of their children and the global scope at the root; each scope holds, once
    and in order, the symbols that were declared in it and not refused; whatever is done later, no
    scope and no symbol changes; the scopes around a scope lead strictly down to the global one.
    Kept in two containers, the symbols of each scope are the same, and the containers fit
    together. -/
theorem consistent_of_run {ops : List Operation} (h : Run new ops table) :
    table.Consistent ∧
    (∀ i, table.symbolsAt i = declaredIn i ((globalScope, Symbol.printf) :: new.accepted ops)) ∧
    (∀ later table', Run table later table' → table.Persists table') ∧
    (∀ i < table.scopes.size, table.LeadsOut i (table.ancestors i)) ∧
    (Register.run ops).size = table.scopes.size ∧
    ∀ i register scope, (Register.run ops)[i]? = some register → table.scope? i = some scope →
      register.Consistent ∧ register.symbols = scope.symbols ∧
        ∀ name, register.byName[name]? = scope.get? name := by
  have hconsistent := h.consistent consistent_new
  have hmirrors := Register.mirrors_new.run h
  refine ⟨hconsistent, fun i => ?_, fun _ _ hlater => hlater.persists,
    hconsistent.leadsOut_ancestors, hmirrors.size_eq, fun i register scope hregister hscope => ?_⟩
  · rw [h.symbolsAt_eq, symbolsAt_new, ← declaredIn_append, List.singleton_append]
  · have hsymbols : table.symbolsAt i = scope.symbols := by
      rw [symbolsAt, hscope]
      rfl
    have hrecords := hmirrors.records i register hregister
    have hnodup := hconsistent.nodup_names i
    rw [hsymbols] at hrecords hnodup
    exact ⟨hrecords.consistent hnodup, hrecords.symbols_eq hnodup, hrecords.getElem?_eq⟩

/-- A scope in which a name is declared twice, a scope inside it that declares the name again, and
    one leaving more than there are scopes to leave. -/
def crowdedOps : List Operation :=
  [.enter "main", .declare 1 ⟨"b", .var 1⟩, .declare 1 ⟨"a", .var 1⟩, .declare 1 ⟨"b", .var 2⟩,
    .enter "block", .declare 2 ⟨"b", .var 3⟩, .leave, .leave, .leave]

theorem consistent_of_run_crowdedOps :
    Run new crowdedOps (crowdedOps.foldl perform new) ∧
      (crowdedOps.foldl perform new).Consistent ∧
      (crowdedOps.foldl perform new).symbolsAt 1 = [⟨"b", .var 1⟩, ⟨"a", .var 1⟩] := by
  have hrun : Run new crowdedOps (crowdedOps.foldl perform new) :=
    .cons trivial <| .cons (by decide) <| .cons (by decide) <| .cons (by decide) <|
      .cons trivial <| .cons (by decide) <| .cons trivial <| .cons trivial <| .cons trivial <|
      .nil _
  obtain ⟨hconsistent, hsymbols, -⟩ := consistent_of_run hrun
  exact ⟨hrun, hconsistent, (hsymbols 1).trans (by decide)⟩

end SymbolTable

end MiniC
