import Mathlib
import MiniC.Proofs.Code.Freshness
import MiniC.Proofs.Execution.Simulation
import MiniC.Proofs.Grammar.Soundness

/-!
# Lowering preserves meaning

The last steps from a source text to its meaning. The tables of the analysis know at most the
variables that are in force when the tree is run, so a function whose names are resolved to
variables by the analysis fits its environment; the words of the text tell its names from its
numbers. Hence the code of a function, found in the compiled code by its marks, does what the
function does.
-/

namespace MiniC

open SymbolTable

universe u

/-! ## 1. Tables and names in force -/

theorem SymbolTable.name_of_lookup {table : SymbolTable} {x : String} {symbol : Symbol}
    (h : table.lookup x = some symbol) : symbol.name = x := by
  rw [lookup_eq_findSome?_frames] at h
  obtain ⟨frame, -, hfind⟩ := List.exists_of_findSome?_eq_some h
  simpa using List.find?_some hfind

/-- Every variable that the table knows from its current scope is one of the names. -/
def Covers (names : List String) (table : SymbolTable) : Prop :=
  ∀ x symbol, table.lookup x = some symbol → symbol.isVariable = true → x ∈ names

variable {names : List String} {table : SymbolTable}

theorem Covers.enter (h : Covers names table) (hwf : table.WellFormed) (name : String) :
    Covers names (table.enter name) := by
  intro x symbol hx hvariable
  rw [lookup_enter hwf] at hx
  exact h x symbol hx hvariable

theorem Covers.grows {table' : SymbolTable} {added : List Symbol} (h : Covers names table)
    (hwf : table.WellFormed) (hgrows : Grows table table' added) (pushed : List String)
    (hadded : ∀ s ∈ added, s.name ∈ pushed) : Covers (pushed ++ names) table' := by
  intro x symbol hx hvariable
  rcases hgrows.of_lookup hwf hx with hmem | hbefore
  · rw [← name_of_lookup hx]
    exact List.mem_append_left _ (hadded symbol hmem)
  · exact List.mem_append_right _ (h x symbol hbefore hvariable)

/-! ## 2. Functions that fit -/

/-- Whether the analysis resolves the name to a variable. -/
def Use.isVariable (use : Use) : Bool :=
  (use.table.lookup use.id.name).any Symbol.isVariable

theorem Covers.mem (h : Covers names table) {access : Access} {id : Ident}
    (hid : (Use.mk access id table).isVariable = true) : id.name ∈ names := by
  rw [Use.isVariable] at hid
  cases hsymbol : table.lookup id.name with
  | none =>
    rw [hsymbol] at hid
    cases hid
  | some symbol =>
    rw [hsymbol] at hid
    exact h id.name symbol hsymbol hid

theorem Expr.fits {e : Expr} (hlexed : e.WellLexed) (hcovers : Covers names table)
    (huses : ∀ u ∈ e.uses table, u.access ≠ .declared → u.isVariable = true) : e.Fits names := by
  refine ⟨hlexed, fun id hid => ?_⟩
  exact hcovers.mem (huses ⟨.read, id, table⟩ (List.mem_map.mpr ⟨id, hid, rfl⟩) nofun)

theorem Declaration.covers {decl : Declaration} (hcovers : Covers names table)
    (hwf : table.WellFormed) :
    Covers (decl.target.name :: names) (decl.analyze table).table := by
  obtain ⟨added, hgrows, hadded⟩ := Declaration.grows_analyze hwf decl
  refine hcovers.grows hwf hgrows [decl.target.name] fun s hs => ?_
  rw [hadded s hs]
  exact List.mem_singleton.mpr rfl

theorem Declaration.fits {decl : Declaration} (hlexed : decl.WellLexed) (hwf : table.WellFormed)
    (hcovers : Covers names table) (hfresh : decl.target.name ∉ names)
    (hplain : spellsTemp decl.target.name = false)
    (huses : ∀ u ∈ decl.uses table, u.access ≠ .declared → u.isVariable = true) :
    decl.Fits names := by
  refine ⟨⟨hlexed.target, hplain⟩, hfresh, fun init hinit => ?_⟩
  refine Expr.fits (hlexed.init init hinit) (Declaration.covers hcovers hwf) fun u hu => huses u ?_
  rw [Declaration.uses, hinit]
  exact List.mem_cons_of_mem _ (List.mem_append_left _ hu)

theorem Assignment.fits {a : Assignment} (hlexed : a.value.WellLexed)
    (hcovers : Covers names table)
    (huses : ∀ u ∈ a.uses table, u.access ≠ .declared → u.isVariable = true) : a.Fits names := by
  obtain ⟨hreads, htarget⟩ := List.forall_mem_append.mp huses
  refine ⟨hcovers.mem (htarget ⟨.written, a.target, table⟩ List.mem_cons_self nofun), ?_⟩
  exact Expr.fits hlexed hcovers hreads

theorem Stmt.covers {stmt : Stmt} (hcovers : Covers names table) (hwf : table.WellFormed) :
    Covers (stmt.namesAfter names) (stmt.analyze table).table := by
  obtain ⟨added, hgrows, hadded⟩ := Stmt.grows_analyze hwf stmt
  refine hcovers.grows hwf hgrows _ fun s hs => ?_
  obtain ⟨id, hid, rfl⟩ := hadded s hs
  rw [Option.mem_toList, Option.map_eq_some_iff]
  exact ⟨id, hid, rfl⟩

/-- A statement declares in its own scope only names that it declares. -/
theorem Stmt.declared?_sublist (stmt : Stmt) :
    ((stmt.declared?.map Ident.name).toList).Sublist stmt.declaredNames := by
  cases stmt with
  | declare decl => exact List.Sublist.refl _
  | assign | call | branch | loop | ret => exact List.nil_sublist _

/-- When the names to come differ from each other and from those in force, they do so after a
    statement too. -/
theorem Stmt.nodup_namesAfter {stmt : Stmt} {later : List String}
    (h : (stmt.declaredNames ++ later ++ names).Nodup) :
    (later ++ stmt.namesAfter names).Nodup := by
  have hsublist := (Stmt.declared?_sublist stmt).append_right (later ++ names)
  rw [List.append_assoc] at h
  have hperm := List.perm_append_comm_assoc (stmt.declared?.map Ident.name).toList later names
  exact hperm.nodup_iff.mp (h.sublist hsublist)

mutual

/-- **A statement whose names the analysis resolves to variables fits the names in force**, when its
    own names are new and not spelled like temporaries. -/
theorem Stmt.fits {names : List String} {table : SymbolTable} (hwf : table.WellFormed)
    (hcovers : Covers names table) : (stmt : Stmt) → stmt.WellLexed →
    (stmt.declaredNames ++ names).Nodup → (∀ x ∈ stmt.declaredNames, spellsTemp x = false) →
    (∀ u ∈ stmt.uses table, u.access ≠ .declared → u.isVariable = true) → stmt.Fits names
  | .declare decl, hlexed, hnodup, hplain, huses =>
    Declaration.fits hlexed hwf hcovers (List.nodup_cons.mp hnodup).1
      (hplain _ List.mem_cons_self) huses
  | .assign a, hlexed, _, _, huses => Assignment.fits hlexed hcovers huses
  | .call callee args, hlexed, _, _, huses => Expr.fits hlexed hcovers huses
  | .ret none _, _, _, _, _ => nofun
  | .ret (some value) _, hlexed, _, _, huses => by
    intro e he
    cases he
    exact Expr.fits (hlexed value rfl) hcovers huses
  | .branch cond yes no, hlexed, hnodup, hplain, huses => by
    obtain ⟨hcond, hyes, hno⟩ := hlexed
    rw [Stmt.declaredNames] at hnodup hplain
    rw [Stmt.uses] at huses
    obtain ⟨hplain, hplain'⟩ := List.forall_mem_append.mp hplain
    obtain ⟨huses, huses''⟩ := List.forall_mem_append.mp huses
    obtain ⟨huses, huses'⟩ := List.forall_mem_append.mp huses
    obtain ⟨added, hgrows, -⟩ := Stmt.grows_analyzeAll (hwf.enter "block") yes
    have hleave := hgrows.leave hwf
    refine ⟨Expr.fits hcond hcovers huses, ?_, ?_⟩
    · refine Stmt.fitsAll (hwf.enter "block") (hcovers.enter hwf "block") yes hyes ?_ hplain huses'
      exact hnodup.sublist ((List.sublist_append_left _ _).append_right names)
    · refine Stmt.fitsElse hleave.wellFormed ?_ no hno ?_ hplain' huses''
      · exact hcovers.grows hwf hleave [] fun s hs => absurd hs List.not_mem_nil
      · exact hnodup.sublist ((List.sublist_append_right _ _).append_right names)
  | .loop init cond step body, hlexed, hnodup, hplain, huses => by
    obtain ⟨hinit, hcond, hstep, hbody⟩ := hlexed
    rw [Stmt.declaredNames] at hnodup hplain
    rw [Stmt.uses] at huses
    obtain ⟨hplain, hplain'⟩ := List.forall_mem_cons.mp hplain
    obtain ⟨huses, hsteps⟩ := List.forall_mem_append.mp huses
    obtain ⟨huses, hbodies⟩ := List.forall_mem_append.mp huses
    obtain ⟨hinits, hconds⟩ := List.forall_mem_append.mp huses
    have hwf' := hwf.enter "for-loop"
    have hcovers' := hcovers.enter hwf "for-loop"
    have hhead : Covers (init.target.name :: names) (init.analyze (table.enter "for-loop")).table :=
      Declaration.covers hcovers' hwf'
    obtain ⟨added, hgrows, -⟩ := Declaration.grows_analyze hwf' init
    obtain ⟨hfresh, -⟩ := List.nodup_cons.mp hnodup
    refine ⟨Declaration.fits hinit hwf' hcovers' ?_ hplain hinits, Expr.fits hcond hhead hconds,
      Assignment.fits hstep hhead hsteps, ?_⟩
    · exact fun hmem => hfresh (List.mem_append_right _ hmem)
    · refine Stmt.fitsAll (hgrows.wellFormed.enter "block") (hhead.enter hgrows.wellFormed "block")
        body hbody ?_ hplain' hbodies
      exact List.perm_middle.nodup_iff.mpr hnodup

theorem Stmt.fitsAll {names : List String} {table : SymbolTable} (hwf : table.WellFormed)
    (hcovers : Covers names table) : (stmts : List Stmt) → Stmt.WellLexedAll stmts →
    (Stmt.declaredNamesAll stmts ++ names).Nodup →
    (∀ x ∈ Stmt.declaredNamesAll stmts, spellsTemp x = false) →
    (∀ u ∈ Stmt.usesAll table stmts, u.access ≠ .declared → u.isVariable = true) →
    Stmt.FitsAll names stmts
  | [], _, _, _, _ => trivial
  | stmt :: stmts, hlexed, hnodup, hplain, huses => by
    obtain ⟨hstmt, hstmts⟩ := hlexed
    rw [Stmt.declaredNamesAll] at hnodup hplain
    rw [Stmt.usesAll] at huses
    obtain ⟨hplain, hplain'⟩ := List.forall_mem_append.mp hplain
    obtain ⟨huses, huses'⟩ := List.forall_mem_append.mp huses
    obtain ⟨added, hgrows, -⟩ := Stmt.grows_analyze hwf stmt
    refine ⟨Stmt.fits hwf hcovers stmt hstmt ?_ hplain huses, ?_⟩
    · exact hnodup.sublist ((List.sublist_append_left _ _).append_right names)
    · exact Stmt.fitsAll hgrows.wellFormed (Stmt.covers hcovers hwf) stmts hstmts
        (Stmt.nodup_namesAfter hnodup) hplain' huses'

theorem Stmt.fitsElse {names : List String} {table : SymbolTable} (hwf : table.WellFormed)
    (hcovers : Covers names table) : (no : Option (List Stmt)) → Stmt.WellLexedElse no →
    (Stmt.declaredNamesElse no ++ names).Nodup →
    (∀ x ∈ Stmt.declaredNamesElse no, spellsTemp x = false) →
    (∀ u ∈ Stmt.usesElse table no, u.access ≠ .declared → u.isVariable = true) →
    Stmt.FitsElse names no
  | none, _, _, _, _ => trivial
  | some stmts, hlexed, hnodup, hplain, huses =>
    Stmt.fitsAll (hwf.enter "block") (hcovers.enter hwf "block") stmts hlexed hnodup hplain huses

end

/-! ## 3. The meaning of compiled code -/

variable {Value : Type u}

/-- The machine, from `start`, does what the result of running a function says. It ends in the same
    way and with the same calls; it gets stuck where the function does; it has made the same calls
    where the function reads a variable without a value; and when the rounds ran out, it has made
    the same calls and at least as many steps as there are rounds. No name is unbound. -/
def Result.RealizedBy {α : Type u} (r : Result Value α) (I : Interpretation Value) (code : Code)
    (rounds : Nat) (start : State Value) : Prop :=
  match r with
  | .done _ calls => ∃ n, start.run I code n = .finished .ended calls
  | .returned value calls => ∃ n, start.run I code n = .finished (.returned value) calls
  | .stuck calls => ∃ n, start.run I code n = .stuck calls
  | .unset calls => ∃ n s, start.run I code n = .running s ∧ s.history = calls
  | .unbound _ => False
  | .unfinished calls =>
    ∃ n s, rounds ≤ n ∧ start.run I code n = .running s ∧ s.history = calls

/-- A machine that has run through the whole code ends there. -/
theorem Follows.realizedBy {I : Interpretation Value} {code : Code} {rounds : Nat}
    {start : State Value} {names : List String} {r : Result Value (Env Value)}
    (hstart : start.pc = 0) (h : Follows I code rounds start r (Executed code start names)) :
    r.RealizedBy I code rounds start := by
  cases r with
  | done env calls =>
    obtain ⟨n, s, hrun, rfl, hexecuted⟩ := h
    have hend : code[s.pc]? = none := by
      rw [hexecuted.pc, hstart, Nat.zero_add]
      exact List.getElem?_eq_none (Nat.le_refl _)
    have hstep : s.step I code = .finished .ended s.history := by
      simp only [State.step, hend]
    exact ⟨n + 1, by rw [State.run_add hrun, State.run, hstep]⟩
  | returned | stuck | unset | unbound | unfinished => exact h

/-- The body of a function fits its parameters. -/
theorem Function.fits {before : List Function} {f : Function} (hlexed : f.WellLexed)
    (hdistinct : f.declaredNames.Nodup) (hplain : ∀ x ∈ f.declaredNames, spellsTemp x = false)
    (hvariables : ∀ u ∈ f.uses before, u.access ≠ .declared → u.isVariable = true) :
    Stmt.FitsAll (f.params.map (·.id.name)) f.body := by
  obtain ⟨hwf, hparams⟩ := Function.opened_tableAfter before f
  refine Stmt.fitsAll hwf ?_ f.body hlexed.body ?_ (List.forall_mem_append.mp hplain).2 hvariables
  · intro x symbol hx hvariable
    obtain ⟨param, hparam, hsymbol⟩ := hparams x symbol hx hvariable
    rw [← name_of_lookup hx, hsymbol]
    exact List.mem_map.mpr ⟨param, hparam, rfl⟩
  · exact List.perm_append_comm.nodup_iff.mp hdistinct

namespace Artifacts

variable {source : String} {artifacts : Artifacts} {before after : List Function} {f : Function}

/-- The functions of a program that compiles take their words from the text. -/
theorem wellLexed (h : compile source = .compiled artifacts) :
    ∀ f ∈ artifacts.program, f.WellLexed := by
  obtain ⟨-, -, rfl⟩ := compile_eq_compiled_iff.mp h
  exact fun f hf => (Program.printable_read source f hf).wellLexed

/-- The machine on the section of a function follows the run of the function. -/
theorem realizedBy_bodyOf (h : compile source = .compiled artifacts)
    (hprogram : artifacts.program = before ++ f :: after) (hdistinct : f.declaredNames.Nodup)
    (hplain : ∀ x ∈ f.declaredNames, spellsTemp x = false)
    (hvariables : ∀ u ∈ f.uses before, u.access ≠ .declared → u.isVariable = true)
    (I : Interpretation Value) (frame : Frame Value) (history : History Value) (rounds : Nat) :
    (f.execute I rounds frame history).RealizedBy I (artifacts.code.bodyOf f.id.name) rounds
      (.start frame history) := by
  have hlexed : f.WellLexed := wellLexed h f (by rw [hprogram]; simp)
  have hfits := Function.fits hlexed hdistinct hplain hvariables
  have hnames : Env.names (f.params.map fun p => (p.id.name, frame p.id.name)) =
      f.params.map (·.id.name) := by
    simp [Env.names]
  rw [bodyOf_code h hprogram]
  refine Follows.realizedBy rfl (Stmt.followsAll (Stmt.nodup_labels_lowerAll _ f.body) f.body ?_ ?_
    (.whole _))
  · rw [hnames]
    exact hfits
  · obtain ⟨hparams, -, -⟩ := List.nodup_append.mp hdistinct
    refine ⟨fun x v hmem => ?_, by rw [hnames]; exact hparams, ?_⟩
    · obtain ⟨param, -, hparam⟩ := List.mem_map.mp hmem
      obtain ⟨rfl, hvalue⟩ := Prod.mk.inj hparam
      exact hvalue
    · rw [hnames]
      intro x hx
      obtain ⟨param, hparam, rfl⟩ := List.mem_map.mp hx
      exact ⟨hlexed.params param hparam, hplain _ (List.mem_append_left _ hx)⟩

/-- **Lowering preserves meaning.** Take a function of a text that compiles whose parameters and
    variables have different names, none spelled like a temporary, and whose names the analysis
    resolves to variables. Under every interpretation, the machine on the section of the function
    in the compiled code realizes every run of the function from the same frame and history; and
    when the function runs on for any number of rounds, so does the machine for any number of
    steps. -/
theorem lowering_preserves_meaning (h : compile source = .compiled artifacts)
    (hprogram : artifacts.program = before ++ f :: after) (hdistinct : f.declaredNames.Nodup)
    (hplain : ∀ x ∈ f.declaredNames, spellsTemp x = false)
    (hvariables : ∀ u ∈ f.uses before, u.access ≠ .declared → u.isVariable = true)
    (I : Interpretation Value) (frame : Frame Value) (history : History Value) :
    (∀ rounds, (f.execute I rounds frame history).RealizedBy I
      (artifacts.code.bodyOf f.id.name) rounds (.start frame history)) ∧
    ((∀ rounds, ∃ calls, f.execute I rounds frame history = .unfinished calls) →
      ∀ n, ∃ s, (State.start frame history).run I (artifacts.code.bodyOf f.id.name) n =
        .running s) := by
  have hrealized := realizedBy_bodyOf h hprogram hdistinct hplain hvariables I frame history
  refine ⟨hrealized, fun hforever n => ?_⟩
  obtain ⟨calls, hcalls⟩ := hforever n
  have hrun := hrealized n
  rw [hcalls] at hrun
  obtain ⟨m, s, hle, hrunning, -⟩ := hrun
  exact State.run_of_le hle hrunning

/-- A loop over a branch with a call in it. -/
def callingLoop : String :=
  "int f(int n) \x7b int s = 0; for (int i = 0; i < n; i = i + 1) \x7b " ++
    "if (i) \x7b s = s + printf(i); \x7d \x7d return s; \x7d"

/-- The function of `callingLoop`. -/
def callingFunction : Function :=
  ⟨.int, ⟨"f", 1⟩, [⟨.int, ⟨"n", 1⟩⟩], [
    .declare ⟨⟨"s", 1⟩, some (.number "0")⟩,
    .loop ⟨⟨"i", 1⟩, some (.number "0")⟩
      (.binary .lessThan (.ident ⟨"i", 1⟩) (.ident ⟨"n", 1⟩))
      ⟨⟨"i", 1⟩, .binary .add (.ident ⟨"i", 1⟩) (.number "1")⟩ [
        .branch (.ident ⟨"i", 1⟩)
          [.assign ⟨⟨"s", 1⟩,
            .binary .add (.ident ⟨"s", 1⟩) (.call ⟨"printf", 1⟩ [.ident ⟨"i", 1⟩])⟩] none],
    .ret (some (.ident ⟨"s", 1⟩)) 1]⟩

/-- Integers, where a call is answered by ten for each call before it and its arguments. -/
def integers : Interpretation Int where
  number text := Nat.ofDigitChars 10 text.toList 0
  string text := text.length
  binary op a b :=
    match op with
    | .add => some (a + b)
    | .sub => some (a - b)
    | .mul => some (a * b)
    | .div => if b = 0 then none else some (a.tdiv b)
    | .lessThan => some (if a < b then 1 else 0)
    | _ => none
  unary op a :=
    match op with
    | .neg => some (-a)
    | .not => some (if a = 0 then 1 else 0)
  isFalse a := a = 0
  answer history _ args := 10 * history.length + args.sum

/-- The frame in which the parameter `n` is three. -/
def threeRounds : Frame Int := fun x => if x = "n" then some 3 else none

theorem lowering_preserves_meaning_callingLoop :
    compile callingLoop = .compiled (.ofSource callingLoop) ∧
      (ofSource callingLoop).program = [] ++ callingFunction :: [] ∧
      callingFunction.declaredNames.Nodup ∧
      (∀ x ∈ callingFunction.declaredNames, spellsTemp x = false) ∧
      (∀ u ∈ callingFunction.uses [], u.access ≠ .declared → u.isVariable = true) ∧
      ∃ n, (State.start threeRounds []).run integers ((ofSource callingLoop).code.bodyOf "f") n =
        .finished (.returned (some 13)) [⟨"printf", [1], 1⟩, ⟨"printf", [2], 12⟩] := by
  have hread : Program.read (Token.scan callingLoop) = ⟨[callingFunction], [], []⟩ := by cbv
  obtain ⟨hcompile, hprogram⟩ := compile_of_read hread (by cbv)
  have hsplit : (ofSource callingLoop).program = [] ++ callingFunction :: [] := hprogram
  have hdistinct : callingFunction.declaredNames.Nodup := by decide
  have hplain : ∀ x ∈ callingFunction.declaredNames, spellsTemp x = false := by decide
  have huses :
      (callingFunction.uses []).all (fun u => u.access = .declared || u.isVariable) = true := by
    cbv
  have hvariables : ∀ u ∈ callingFunction.uses [], u.access ≠ .declared → u.isVariable = true := by
    intro u hu haccess
    have h := List.all_eq_true.mp huses u hu
    rw [decide_eq_false haccess, Bool.false_or] at h
    exact h
  have hexecute : callingFunction.execute integers 4 threeRounds [] =
      .returned (some 13) [⟨"printf", [1], 1⟩, ⟨"printf", [2], 12⟩] := by
    cbv
  have hmeaning := (lowering_preserves_meaning hcompile hsplit hdistinct hplain hvariables integers
    threeRounds []).1 4
  rw [hexecute] at hmeaning
  exact ⟨hcompile, hsplit, hdistinct, hplain, hvariables, hmeaning⟩

end Artifacts

end MiniC
