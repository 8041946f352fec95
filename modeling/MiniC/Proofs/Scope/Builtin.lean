import Mathlib
import MiniC.Proofs.Grammar.Salvage
import MiniC.Proofs.Scope.Conformance
import MiniC.Proofs.Scope.Isolation
import MiniC.Proofs.Scope.Places

/-!
# The built-in function

`printf` is a reserved word, so no text declares it, whatever faults the text has: the tree that is
read binds plain names only. The analysis of such a tree is a run of operations on the table that
spare the name (`SymbolTable.Spared`), and what such a run leaves of it is what was there at the
start: one symbol in the global scope, seen from everywhere. In the terms of the scoping rules, the
regions around every name resolve `printf` to a function, so that a call of it is never wrong. Main
statement: `Program.keepsPrintf_read`.
-/

namespace MiniC

namespace SymbolTable

variable {name : String} {table table' table'' : SymbolTable}

/-! ## 1. Runs that spare a name -/

/-- The operation declares no symbol of that name. -/
def Operation.Spares (name : String) : Operation → Prop
  | .enter _ => True
  | .leave => True
  | .declare _ symbol => symbol.name ≠ name

/-- **`table'` is what operations make of `table` that declare no symbol of that name.** -/
def Spared (name : String) (table table' : SymbolTable) : Prop :=
  ∃ ops, Run table ops table' ∧ ∀ op ∈ ops, op.Spares name

theorem Spared.refl (name : String) (table : SymbolTable) : Spared name table table :=
  ⟨[], .nil table, fun _ hop => absurd hop List.not_mem_nil⟩

theorem Spared.trans (h : Spared name table table') (h' : Spared name table' table'') :
    Spared name table table'' := by
  obtain ⟨ops, hrun, hops⟩ := h
  obtain ⟨ops', hrun', hops'⟩ := h'
  exact ⟨ops ++ ops', hrun.append hrun', List.forall_mem_append.mpr ⟨hops, hops'⟩⟩

theorem spared_perform {op : Operation} (happlies : op.Applies table) (hop : op.Spares name) :
    Spared name table (table.perform op) :=
  ⟨[op], .cons happlies (.nil _), List.forall_mem_singleton.mpr hop⟩

theorem Spared.consistent (h : Spared name table table') (hstart : table.Consistent) :
    table'.Consistent := by
  obtain ⟨ops, hrun, -⟩ := h
  exact hrun.consistent hstart

/-! ## 2. The name after such a run -/

/-- An accepted declaration is one of the operations. -/
theorem declare_mem_of_mem_accepted {i : Nat} {symbol : Symbol} {ops : List Operation} :
    ∀ {table : SymbolTable}, (i, symbol) ∈ table.accepted ops → .declare i symbol ∈ ops := by
  induction ops with
  | nil => exact fun h => absurd h List.not_mem_nil
  | cons op ops ih =>
    intro table h
    rcases List.mem_append.mp h with hadded | hlater
    · cases op with
      | enter => cases hadded
      | leave => cases hadded
      | declare j other =>
        rw [added] at hadded
        split at hadded
        case isTrue =>
          cases List.mem_singleton.mp hadded
          exact List.mem_cons_self
        case isFalse => cases hadded
    · exact List.mem_cons_of_mem _ (ih hlater)

/-- A symbol of the name was there before. -/
theorem Spared.mem_of_mem (h : Spared name table table') {i : Nat} {symbol : Symbol}
    (hmem : symbol ∈ table'.symbolsAt i) (hname : symbol.name = name) :
    symbol ∈ table.symbolsAt i := by
  obtain ⟨ops, hrun, hops⟩ := h
  rw [hrun.symbolsAt_eq] at hmem
  rcases List.mem_append.mp hmem with hold | hnew
  · exact hold
  · obtain ⟨⟨j, found⟩, hfound, rfl⟩ := List.mem_map.mp hnew
    have haccepted := (List.mem_filter.mp hfound).1
    exact absurd hname (hops _ (declare_mem_of_mem_accepted haccepted))

/-- What a scope held before is held after. -/
theorem Spared.held_of_held (h : Spared name table table') {i : Nat} {x : String} {symbol : Symbol}
    (hheld : table.held i x = some symbol) : table'.held i x = some symbol := by
  obtain ⟨ops, hrun, -⟩ := h
  rw [held_eq_find?] at hheld ⊢
  rw [hrun.symbolsAt_eq, List.find?_append, hheld, Option.some_or]

/-- **Only the global scope holds `printf`, as the built-in function.** -/
theorem Spared.eq_printf (h : Spared "printf" new table) {i : Nat} {symbol : Symbol}
    (hmem : symbol ∈ table.symbolsAt i) (hname : symbol.name = "printf") :
    i = globalScope ∧ symbol = Symbol.printf := by
  have hold := h.mem_of_mem hmem hname
  cases i with
  | zero => exact ⟨rfl, List.mem_singleton.mp hold⟩
  | succ i =>
    rw [symbolsAt_new] at hold
    cases hold

/-- **From every scope `printf` is the built-in function**: every path leads out to the global scope,
    and no scope on the way holds the name. -/
theorem Spared.lookupFrom_printf (h : Spared "printf" new table) {i : Nat}
    (hi : i < table.scopes.size) : table.lookupFrom i "printf" = some Symbol.printf := by
  have hglobal : table.held globalScope "printf" = some Symbol.printf := h.held_of_held rfl
  have hpath := (h.consistent consistent_new).leadsOut_ancestors i hi
  have hroot : globalScope ∈ table.ancestors i := List.mem_of_getLast? hpath.last
  rw [lookupFrom_eq_findSome?]
  cases hfind : (table.ancestors i).findSome? (table.held · "printf") with
  | none =>
    have hnone := List.findSome?_eq_none_iff.mp hfind globalScope hroot
    rw [hglobal] at hnone
    cases hnone
  | some symbol =>
    -- whichever scope on the path is found first, what it holds is the built-in function
    obtain ⟨j, -, hheld⟩ := List.exists_of_findSome?_eq_some hfind
    rw [held_eq_find?] at hheld
    have hname : symbol.name = "printf" := by simpa using List.find?_some hheld
    rw [(h.eq_printf (List.mem_of_find?_eq_some hheld) hname).2]

end SymbolTable

/-! ## 3. The analysis is such a run -/

open SymbolTable

section Analysis

variable {name : String} {table : SymbolTable}

namespace Analysis

theorem spared_declaring {i : Nat} {symbol : Symbol} (hi : i < table.scopes.size)
    (hname : symbol.name ≠ name) (error : SemanticError) :
    Spared name table (declaring table i symbol error).table := by
  have htable : (declaring table i symbol error).table = table.perform (.declare i symbol) := by
    rw [declaring, perform]
    cases table.declare? i symbol <;> rfl
  rw [htable]
  exact spared_perform hi hname

theorem spared_inScope (scope : String) (part : SymbolTable → Analysis)
    (h : Spared name (table.enter scope) (part (table.enter scope)).table) :
    Spared name table (inScope table scope part).table :=
  have henter : Spared name table (table.enter scope) :=
    spared_perform (show (Operation.enter scope).Applies table from trivial) trivial
  have hleave := spared_perform (show Operation.leave.Applies _ from trivial) trivial
  henter.trans (h.trans hleave)

theorem spared_declaringVar (hc : table.Consistent) {id : Ident} (hid : id.name ≠ name) :
    Spared name table (declaringVar table id).table :=
  spared_declaring hc.wellFormed.current_lt hid _

theorem spared_declaringVars {ids : List Ident} (hids : ∀ id ∈ ids, id.name ≠ name) :
    ∀ {table : SymbolTable}, table.Consistent →
    Spared name table (declaringVars table ids).table := by
  induction ids with
  | nil => exact fun _ => .refl name _
  | cons id ids ih =>
    obtain ⟨hid, hids⟩ := List.forall_mem_cons.mp hids
    intro table hc
    have hfirst := spared_declaringVar hc hid
    exact hfirst.trans (ih hids (hfirst.consistent hc))

end Analysis

open Analysis

mutual

/-- **The analysis of a statement that declares nothing of a name spares the name.** -/
theorem Stmt.spared_analyze {table : SymbolTable} (hc : table.Consistent) : (stmt : Stmt) →
    (∀ x ∈ stmt.declaredNames, x ≠ name) → Spared name table (stmt.analyze table).table
  | .declare _, hnames => spared_declaringVar hc (hnames _ List.mem_cons_self)
  | .assign _, _ | .call _ _, _ | .ret _ _, _ => .refl name table
  | .branch _ yes no, hnames => by
    rw [Stmt.declaredNames, List.forall_mem_append] at hnames
    have hyes := spared_inScope "block" (Stmt.analyzeAll · yes)
      (Stmt.spared_analyzeAll (hc.perform (.enter "block")) yes hnames.1)
    exact hyes.trans (Stmt.spared_analyzeElse (hyes.consistent hc) no hnames.2)
  | .loop _ _ _ body, hnames => by
    rw [Stmt.declaredNames, List.forall_mem_cons] at hnames
    have hentered := hc.perform (.enter "for-loop")
    have hinit := spared_declaringVar hentered hnames.1
    have hbody := spared_inScope "block" (Stmt.analyzeAll · body)
      (Stmt.spared_analyzeAll ((hinit.consistent hentered).perform (.enter "block")) body hnames.2)
    -- the condition and the step only look names up
    exact spared_inScope "for-loop" _ (hinit.trans hbody)

theorem Stmt.spared_analyzeAll {table : SymbolTable} (hc : table.Consistent) :
    (stmts : List Stmt) → (∀ x ∈ Stmt.declaredNamesAll stmts, x ≠ name) →
    Spared name table (Stmt.analyzeAll table stmts).table
  | [], _ => .refl name table
  | stmt :: stmts, hnames => by
    rw [Stmt.declaredNamesAll, List.forall_mem_append] at hnames
    have hstmt := Stmt.spared_analyze hc stmt hnames.1
    exact hstmt.trans (Stmt.spared_analyzeAll (hstmt.consistent hc) stmts hnames.2)

theorem Stmt.spared_analyzeElse {table : SymbolTable} (hc : table.Consistent) :
    (no : Option (List Stmt)) → (∀ x ∈ Stmt.declaredNamesElse no, x ≠ name) →
    Spared name table (Stmt.analyzeElse table no).table
  | none, _ => .refl name table
  | some stmts, hnames =>
    spared_inScope "block" (Stmt.analyzeAll · stmts)
      (Stmt.spared_analyzeAll (hc.perform (.enter "block")) stmts hnames)

end

theorem Function.spared_analyze (hc : table.Consistent) {f : Function} (hname : f.id.name ≠ name)
    (hnames : ∀ x ∈ f.declaredNames, x ≠ name) : Spared name table (f.analyze table).table := by
  rw [Function.declaredNames, List.forall_mem_append, List.forall_mem_map] at hnames
  obtain ⟨hparams, hbody⟩ := hnames
  have hids : ∀ id ∈ f.params.map Param.id, id.name ≠ name := List.forall_mem_map.mpr hparams
  have hpos : globalScope < table.scopes.size :=
    Nat.lt_of_le_of_lt (Nat.zero_le _) hc.wellFormed.current_lt
  have hsymbol : f.symbol.name ≠ name := hname
  have hdefined := spared_declaring hpos hsymbol ⟨.redefined, f.id⟩
  have hentered := (hdefined.consistent hc).perform (.enter f.id.name)
  have hdeclared := spared_declaringVars hids hentered
  have hall := hdeclared.trans
    (Stmt.spared_analyzeAll (hdeclared.consistent hentered) f.body hbody)
  rw [Function.analyze, table_andThen]
  exact hdefined.trans (spared_inScope f.id.name _ hall)

/-- The analysis of functions that do not bind a name spares the name. -/
theorem Function.spared_analyzeAll (fs : List Function)
    (hfs : ∀ f ∈ fs, f.id.name ≠ name ∧ ∀ x ∈ f.declaredNames, x ≠ name) :
    ∀ {table : SymbolTable}, table.Consistent →
    Spared name table (Function.analyzeAll table fs).table := by
  induction fs with
  | nil => exact fun _ => .refl name _
  | cons f fs ih =>
    obtain ⟨⟨hname, hnames⟩, hfs⟩ := List.forall_mem_cons.mp hfs
    intro table hc
    have hf := Function.spared_analyze hc hname hnames
    exact hf.trans (ih hfs (hf.consistent hc))

end Analysis

/-! ## 4. The names that a text can bind -/

mutual

theorem Stmt.isPlainName_of_mem_declaredNames : (stmt : Stmt) → stmt.Printable →
    ∀ x ∈ stmt.declaredNames, IsPlainName x
  | .declare _, hp => List.forall_mem_singleton.mpr hp.target
  | .assign _, _ | .call _ _, _ | .ret _ _, _ => fun _ hx => absurd hx List.not_mem_nil
  | .branch _ yes no, hp => by
    rw [Stmt.declaredNames]
    exact List.forall_mem_append.mpr ⟨Stmt.isPlainName_of_mem_declaredNamesAll yes hp.2.1,
      Stmt.isPlainName_of_mem_declaredNamesElse no hp.2.2⟩
  | .loop _ _ _ body, hp => by
    rw [Stmt.declaredNames]
    exact List.forall_mem_cons.mpr ⟨hp.1.target,
      Stmt.isPlainName_of_mem_declaredNamesAll body hp.2.2.2⟩

theorem Stmt.isPlainName_of_mem_declaredNamesAll : (stmts : List Stmt) →
    Stmt.PrintableAll stmts → ∀ x ∈ Stmt.declaredNamesAll stmts, IsPlainName x
  | [], _ => fun _ hx => absurd hx List.not_mem_nil
  | stmt :: stmts, hp => by
    rw [Stmt.declaredNamesAll]
    exact List.forall_mem_append.mpr ⟨Stmt.isPlainName_of_mem_declaredNames stmt hp.1,
      Stmt.isPlainName_of_mem_declaredNamesAll stmts hp.2⟩

theorem Stmt.isPlainName_of_mem_declaredNamesElse : (no : Option (List Stmt)) →
    Stmt.PrintableElse no → ∀ x ∈ Stmt.declaredNamesElse no, IsPlainName x
  | none, _ => fun _ hx => absurd hx List.not_mem_nil
  | some stmts, hp => Stmt.isPlainName_of_mem_declaredNamesAll stmts hp

end

theorem IsPlainName.ne_printf {x : String} (h : IsPlainName x) : x ≠ "printf" := by
  rintro rfl
  exact h.plain rfl (by decide)

/-- **A function that can be written down binds `printf` nowhere.** -/
theorem Function.Printable.ne_printf {f : Function} (h : f.Printable) :
    f.id.name ≠ "printf" ∧ ∀ x ∈ f.declaredNames, x ≠ "printf" := by
  refine ⟨h.name.ne_printf, List.forall_mem_append.mpr ⟨List.forall_mem_map.mpr ?_, ?_⟩⟩
  · exact fun param hparam => (h.params param hparam).2.ne_printf
  · exact fun x hx => (Stmt.isPlainName_of_mem_declaredNamesAll f.body h.body x hx).ne_printf

/-! ## 5. Calls of the built-in function -/

namespace Surroundings

theorem resolve?_enter (around : Surroundings) (x : String) :
    around.enter.resolve? x = around.resolve? x := rfl

/-- Binding a name changes nothing for the others. -/
theorem resolve?_bind_of_ne (around : Surroundings) {x y : String} (entity : Entity) (h : x ≠ y) :
    (around.bind x entity).resolve? y = around.resolve? y := by
  unfold Surroundings.bind
  by_cases hbound : around.binds x = true
  · rw [if_pos hbound]
  · have hlast : List.lookup y [(x, entity)] = none := by
      rw [List.lookup_cons, beq_false_of_ne h.symm]
      rfl
    rw [if_neg hbound, resolve?, resolve?, List.findSome?_cons, List.findSome?_cons,
      List.lookup_append, hlast, Option.or_none]

/-- That `printf` can be called is kept where other names are bound. -/
theorem kept_printf : Kept (fun around => around.resolve? "printf" = some .function)
    fun x _ => x ≠ "printf" where
  enter {around} h := (around.resolve?_enter "printf").trans h
  bind {around _ entity} h hx := (around.resolve?_bind_of_ne entity hx).trans h

end Surroundings

namespace Occurrence

/-- Whether the occurrence is the name of the built-in function in a call. -/
def callsPrintf (o : Occurrence) : Bool := o.role = .calls && o.id.name = "printf"

theorem complaint?_of_callsPrintf {o : Occurrence} (h : o.callsPrintf = true)
    (haround : o.around.resolve? "printf" = some .function) : o.complaint? = none := by
  rw [callsPrintf, Bool.and_eq_true, decide_eq_true_eq, decide_eq_true_eq] at h
  obtain ⟨hrole, hname⟩ := h
  simp only [complaint?, hrole, hname, haround]

/-- Occurrences without a complaint can be left out. -/
theorem complaints_filter {os : List Occurrence} {p : Occurrence → Bool}
    (h : ∀ o ∈ os, p o = false → o.complaint? = none) :
    complaints (os.filter p) = complaints os := by
  rw [complaints, complaints, List.filterMap_filter]
  refine List.filterMap_congr fun o ho => ?_
  cases hp : p o with
  | true => rfl
  | false => exact (h o ho hp).symm

end Occurrence

/-! ## 6. Programs -/

/-- **`printf` is the built-in function throughout a program.** -/
structure Program.KeepsPrintf (program : Program) : Prop where
  /-- No scope but the global one holds a symbol of the name, and that one holds the function
      without parameters and without a line. -/
  only : ∀ i scope, program.analyze.table.scope? i = some scope →
    ∀ symbol ∈ scope.symbols, symbol.name = "printf" →
      i = globalScope ∧ symbol = ⟨"printf", .func [] none⟩
  /-- The global scope holds it. -/
  global : ∃ scope, program.analyze.table.scope? globalScope = some scope ∧
    scope.get? "printf" = some ⟨"printf", .func [] none⟩
  /-- It is seen from every scope. -/
  lookup : ∀ i < program.analyze.table.scopes.size,
    program.analyze.table.lookupFrom i "printf" = some ⟨"printf", .func [] none⟩
  /-- The errors are those about the other names. -/
  errors : program.analyze.errors.map SemanticError.diagnostic =
    Occurrence.complaints (program.occurrences.filter (!·.callsPrintf))
  /-- What a call of it adds to the errors is what its arguments add. -/
  call : ∀ before around callee args after,
    program.occurrences = before ++ (Expr.call callee args).occurrences around ++ after →
    callee.name = "printf" →
    program.analyze.errors.map SemanticError.diagnostic =
      Occurrence.complaints before ++ Occurrence.complaints (Expr.occurrencesAll around args) ++
        Occurrence.complaints after

namespace Program

variable {program : Program}

theorem Printable.spared_analyze (h : program.Printable) :
    Spared "printf" SymbolTable.new program.analyze.table :=
  Function.spared_analyzeAll program (fun f hf => (h f hf).ne_printf) consistent_new

/-- **Nothing is wrong with a call of the built-in function.** -/
theorem Printable.complaint?_of_callsPrintf (h : program.Printable) {o : Occurrence}
    (ho : o ∈ program.occurrences) (hcalls : o.callsPrintf = true) : o.complaint? = none := by
  have hstands := Function.stands_occurrencesAll Surroundings.kept_printf program
    (fun f hf => (h f hf).ne_printf) (show Surroundings.initial.resolve? "printf" = _ from rfl) o ho
  exact Occurrence.complaint?_of_callsPrintf hcalls hstands.around

theorem Printable.keepsPrintf (h : program.Printable) : program.KeepsPrintf where
  only i scope hscope symbol hmem hname := by
    have hsymbols : program.analyze.table.symbolsAt i = scope.symbols := by
      rw [symbolsAt, hscope]
      rfl
    rw [← hsymbols] at hmem
    exact h.spared_analyze.eq_printf hmem hname
  global := by
    have hheld : program.analyze.table.held globalScope "printf" = some Symbol.printf :=
      h.spared_analyze.held_of_held rfl
    exact Option.bind_eq_some_iff.mp hheld
  lookup _ hi := h.spared_analyze.lookupFrom_printf hi
  errors := by
    rw [Occurrence.complaints_filter fun o ho hcalls => ?_]
    · exact Function.diagnostics_analyzeAll program .new rfl
    · exact h.complaint?_of_callsPrintf ho (by simpa using hcalls)
  call before around callee args after hsplit hname := by
    have hcallee : (⟨.calls, callee, around⟩ : Occurrence).complaint? = none := by
      refine h.complaint?_of_callsPrintf ?_ (by simp [Occurrence.callsPrintf, hname])
      rw [hsplit, Expr.occurrences]
      simp
    have hcall : Occurrence.complaints ((Expr.call callee args).occurrences around) =
        Occurrence.complaints (Expr.occurrencesAll around args) := by
      rw [Expr.occurrences, Occurrence.complaints_cons, Occurrence.complaints,
        List.filterMap_cons_none hcallee]
      rfl
    have herrors := Function.diagnostics_analyzeAll program .new rfl
    rw [Program.analyze, herrors, ← Program.occurrences, hsplit, Occurrence.complaints_append,
      Occurrence.complaints_append, hcall]

end Program

/-- **In whatever is read from a text, `printf` is the built-in function**: it is never defined,
    declared or hidden by the text, every scope sees it, and a call of it is wrong only through its
    arguments. This holds of a text with faults too, for what is read of it. -/
theorem Program.keepsPrintf_read (source : String) :
    (Program.read (Token.scan source)).program.KeepsPrintf :=
  (Program.printable_read source).keepsPrintf

-- the faulty declaration is left out, and only the argument of the inner call is wrong
example :
    (Program.read (Token.scan
      "int g() \x7b int printf = 1; printf(printf(x)); \x7d")).program.analyze =
      ⟨⟨#[⟨"global", none, [⟨"printf", .func [] none⟩, ⟨"g", .func [] (some 1)⟩]⟩,
          ⟨"g", some 0, []⟩], globalScope⟩,
        [⟨.undeclared, ⟨"x", 1⟩⟩]⟩ := by
  cbv

end MiniC
