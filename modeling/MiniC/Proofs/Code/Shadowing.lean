import Mathlib
import MiniC.Proofs.Code.Section
import MiniC.Proofs.Scope.Uses

/-!
# Shadowing and the code

The analysis resolves a name to the declaration in the nearest scope, while the code knows bare
names only. To compare the two, `Stmt.trace` lowers a statement and keeps, for each operand and each
destination, the use of a variable it stands for, with the table that resolves it; without these
notes it is the lowering itself. A write through the inner of two declarations then hits the word
that is read through the outer one exactly when the function has such a write and such a read.
-/

namespace MiniC

/-! ## 1. Steps -/

/-- The words that the instruction reads. -/
def Instruction.operands : Instruction → List String
  | .binary _ left _ right => [left, right]
  | .unary _ _ operand => [operand]
  | .copy _ source => [source]
  | .param value => [value]
  | .ifFalse cond _ => [cond]
  | .ret (some value) => [value]
  | .call _ _ _ | .label _ | .goto _ | .funcBegin _ | .funcEnd _ | .ret none => []

/-- The word that the instruction writes. -/
def Instruction.dest? : Instruction → Option String
  | .binary dest _ _ _ | .unary dest _ _ | .copy dest _ | .call dest _ _ => some dest
  | .param _ | .label _ | .goto _ | .ifFalse _ _ | .funcBegin _ | .funcEnd _ | .ret _ => none

/-- An operand or destination, and the use of a variable that it stands for. -/
structure Word (access : Access) where
  text : String
  use : Option Use
  of_use : ∀ u, use = some u → text = u.id.name ∧ u.access = access

namespace Word

/-- A literal or a temporary, which is no variable's. -/
def plain {access : Access} (text : String) : Word access := ⟨text, none, nofun⟩

/-- The name of a variable. -/
def named (access : Access) (id : Ident) (table : SymbolTable) : Word access where
  text := id.name
  use := some ⟨access, id, table⟩
  of_use u h := by
    cases h
    exact ⟨rfl, rfl⟩

end Word

/-- An instruction with the uses of variables that its words stand for. -/
structure Step where
  instruction : Instruction
  reads : List (Word .read)
  writes : Option (Word .written)
  operands_eq : instruction.operands = reads.map Word.text := by rfl
  dest?_eq : instruction.dest? = writes.map Word.text := by rfl

/-- The uses that the words of a step stand for. -/
def Step.uses (step : Step) : List Use :=
  step.reads.filterMap Word.use ++ step.writes.toList.filterMap Word.use

/-- The uses that the words of steps stand for. -/
def Step.usesAll (steps : List Step) : List Use := steps.flatMap Step.uses

@[simp] theorem Step.usesAll_append (a b : List Step) :
    Step.usesAll (a ++ b) = Step.usesAll a ++ Step.usesAll b :=
  List.flatMap_append

@[simp] theorem Step.usesAll_nil : Step.usesAll [] = [] := rfl

@[simp] theorem Step.usesAll_cons (step : Step) (steps : List Step) :
    Step.usesAll (step :: steps) = step.uses ++ Step.usesAll steps := rfl

/-! ## 2. Tracing -/

/-- What tracing an expression gives: its steps, the word that holds its value, and the number of
    temporaries taken. -/
structure TracedExpr where
  steps : List Step
  word : Word .read
  temps : Nat

/-- What tracing several expressions gives. -/
structure TracedExprs where
  steps : List Step
  words : List (Word .read)
  temps : Nat

/-- The step that hands over an argument. -/
def Step.param (word : Word .read) : Step where
  instruction := .param word.text
  reads := [word]
  writes := none

mutual

/-- An expression lowered, with its uses of variables. -/
def Expr.trace (table : SymbolTable) (temps : Nat) : Expr → TracedExpr
  | .number text => ⟨[], .plain text, temps⟩
  | .string value => ⟨[], .plain ("\"" ++ value ++ "\""), temps⟩
  | .ident id => ⟨[], .named .read id table, temps⟩
  | .binary op left right =>
    let a := left.trace table temps
    let b := right.trace table a.temps
    let dest := temp (b.temps + 1)
    ⟨a.steps ++ b.steps ++ [{
        instruction := .binary dest a.word.text op b.word.text
        reads := [a.word, b.word]
        writes := some (.plain dest) }],
      .plain dest, b.temps + 1⟩
  | .unary op operand =>
    let a := operand.trace table temps
    let dest := temp (a.temps + 1)
    ⟨a.steps ++ [{
        instruction := .unary dest op a.word.text
        reads := [a.word]
        writes := some (.plain dest) }],
      .plain dest, a.temps + 1⟩
  | .call callee args =>
    let as := Expr.traceAll table temps args
    let dest := temp (as.temps + 1)
    ⟨as.steps ++ as.words.map Step.param ++ [{
        instruction := .call dest callee.name as.words.length
        reads := []
        writes := some (.plain dest) }],
      .plain dest, as.temps + 1⟩

/-- Expressions lowered one after the other, with their uses of variables. -/
def Expr.traceAll (table : SymbolTable) (temps : Nat) : List Expr → TracedExprs
  | [] => ⟨[], [], temps⟩
  | e :: es =>
    let a := e.trace table temps
    let as := Expr.traceAll table a.temps es
    ⟨a.steps ++ as.steps, a.word :: as.words, as.temps⟩

end

/-- What tracing a statement gives. -/
structure Traced where
  steps : List Step
  supply : Supply

/-- The copy of a value to a variable. -/
def Step.copy (id : Ident) (table : SymbolTable) (word : Word .read) : Step where
  instruction := .copy id.name word.text
  reads := [word]
  writes := some (.named .written id table)

/-- The mark of a label, which neither reads nor writes. -/
def Step.label (name : String) : Step where
  instruction := .label name
  reads := []
  writes := none

/-- A jump, which neither reads nor writes. -/
def Step.goto (target : String) : Step where
  instruction := .goto target
  reads := []
  writes := none

/-- The jump over a part when a value is false. -/
def Step.ifFalse (word : Word .read) (target : String) : Step where
  instruction := .ifFalse word.text target
  reads := [word]
  writes := none

/-- A declaration lowered, with its uses of variables. -/
def Declaration.trace (table : SymbolTable) (supply : Supply) (decl : Declaration) : Traced :=
  match decl.init with
  | none => ⟨[], supply⟩
  | some init =>
    let after := (decl.analyze table).table
    let a := init.trace after supply.temps
    ⟨a.steps ++ [.copy decl.target after a.word], { supply with temps := a.temps }⟩

/-- An assignment lowered, with its uses of variables. -/
def Assignment.trace (table : SymbolTable) (supply : Supply) (assignment : Assignment) : Traced :=
  let a := assignment.value.trace table supply.temps
  ⟨a.steps ++ [.copy assignment.target table a.word], { supply with temps := a.temps }⟩

mutual

/-- A statement lowered, with its uses of variables. The tables are those of the analysis. -/
def Stmt.trace (table : SymbolTable) (supply : Supply) : Stmt → Traced
  | .declare decl => decl.trace table supply
  | .assign assignment => assignment.trace table supply
  | .call callee args =>
    let a := (Expr.call callee args).trace table supply.temps
    ⟨a.steps, { supply with temps := a.temps }⟩
  | .ret none _ => ⟨[{ instruction := .ret none, reads := [], writes := none }], supply⟩
  | .ret (some value) _ =>
    let a := value.trace table supply.temps
    ⟨a.steps ++ [{ instruction := .ret (some a.word.text), reads := [a.word], writes := none }],
      { supply with temps := a.temps }⟩
  | .branch cond yes no =>
    let a := cond.trace table supply.temps
    let otherwise := label (supply.labels + 1)
    let done := label (supply.labels + 2)
    let y := Stmt.traceAll (table.enter "block") ⟨a.temps, supply.labels + 2⟩ yes
    let n := Stmt.traceElse (Analysis.inScope table "block" (Stmt.analyzeAll · yes)).table
      y.supply no
    ⟨a.steps ++ [.ifFalse a.word otherwise] ++ y.steps
      ++ [.goto done, .label otherwise] ++ n.steps
      ++ [.label done], n.supply⟩
  | .loop init cond step body =>
    let i := init.trace (table.enter "for-loop") supply
    let head := (init.analyze (table.enter "for-loop")).table
    let top := label (i.supply.labels + 1)
    let done := label (i.supply.labels + 2)
    let a := cond.trace head i.supply.temps
    let b := Stmt.traceAll (head.enter "block") ⟨a.temps, i.supply.labels + 2⟩ body
    let s := step.trace head b.supply
    ⟨i.steps ++ [.label top] ++ a.steps ++ [.ifFalse a.word done] ++ b.steps
      ++ s.steps ++ [.goto top, .label done], s.supply⟩

/-- Statements lowered one after the other, with their uses of variables. -/
def Stmt.traceAll (table : SymbolTable) (supply : Supply) : List Stmt → Traced
  | [] => ⟨[], supply⟩
  | stmt :: stmts =>
    let a := stmt.trace table supply
    let b := Stmt.traceAll (stmt.analyze table).table a.supply stmts
    ⟨a.steps ++ b.steps, b.supply⟩

/-- An `else` block lowered, if there is one, with its uses of variables. -/
def Stmt.traceElse (table : SymbolTable) (supply : Supply) : Option (List Stmt) → Traced
  | none => ⟨[], supply⟩
  | some stmts => Stmt.traceAll (table.enter "block") supply stmts

end

/-- The body of a function that comes after the functions `before`, lowered with its uses of
    variables. -/
def Function.trace (before : List Function) (f : Function) : List Step :=
  (Stmt.traceAll (f.opened (tableAfter before)) (lowerAll ⟨0, 0⟩ before).supply f.body).steps

/-! ## 3. The trace is the code -/

mutual

theorem Expr.erase_trace (table : SymbolTable) (temps : Nat) : (e : Expr) →
    (e.trace table temps).steps.map Step.instruction = (e.lower temps).code ∧
      (e.trace table temps).word.text = (e.lower temps).operand ∧
      (e.trace table temps).temps = (e.lower temps).temps
  | .number _ | .string _ | .ident _ => ⟨rfl, rfl, rfl⟩
  | .binary op left right => by
    obtain ⟨hsteps, hword, htemps⟩ := Expr.erase_trace table temps left
    obtain ⟨hsteps', hword', htemps'⟩ := Expr.erase_trace table (left.lower temps).temps right
    rw [← htemps] at hsteps' hword' htemps'
    rw [Expr.trace, Expr.lower]
    simp only [List.map_append, List.map_cons, List.map_nil]
    rw [hsteps, hsteps', hword, hword', htemps', htemps]
    exact ⟨rfl, rfl, rfl⟩
  | .unary op operand => by
    obtain ⟨hsteps, hword, htemps⟩ := Expr.erase_trace table temps operand
    rw [Expr.trace, Expr.lower]
    simp only [List.map_append, List.map_cons, List.map_nil]
    rw [hsteps, hword, htemps]
    exact ⟨rfl, rfl, rfl⟩
  | .call callee args => by
    obtain ⟨hsteps, hwords, htemps⟩ := Expr.erase_traceAll table temps args
    rw [Expr.trace, Expr.lower]
    simp only [List.map_append, List.map_cons, List.map_nil, List.map_map]
    rw [hsteps, htemps, ← hwords, List.map_map, List.length_map]
    exact ⟨rfl, rfl, rfl⟩

theorem Expr.erase_traceAll (table : SymbolTable) (temps : Nat) : (es : List Expr) →
    (Expr.traceAll table temps es).steps.map Step.instruction = (Expr.lowerAll temps es).code ∧
      (Expr.traceAll table temps es).words.map Word.text = (Expr.lowerAll temps es).operands ∧
      (Expr.traceAll table temps es).temps = (Expr.lowerAll temps es).temps
  | [] => ⟨rfl, rfl, rfl⟩
  | e :: es => by
    obtain ⟨hsteps, hword, htemps⟩ := Expr.erase_trace table temps e
    obtain ⟨hsteps', hwords, htemps'⟩ := Expr.erase_traceAll table (e.lower temps).temps es
    rw [← htemps] at hsteps' hwords htemps'
    rw [Expr.traceAll, Expr.lowerAll]
    simp only [List.map_append, List.map_cons]
    rw [hsteps, hsteps', hword, hwords, htemps', htemps]
    exact ⟨rfl, rfl, rfl⟩

end

theorem Declaration.erase_trace (table : SymbolTable) (supply : Supply) (decl : Declaration) :
    (decl.trace table supply).steps.map Step.instruction = (decl.lower supply).code ∧
      (decl.trace table supply).supply = (decl.lower supply).supply := by
  obtain ⟨target, init⟩ := decl
  cases init with
  | none => exact ⟨rfl, rfl⟩
  | some init =>
    obtain ⟨hsteps, hword, htemps⟩ := Expr.erase_trace
      (Declaration.analyze table ⟨target, some init⟩).table supply.temps init
    rw [Declaration.trace, Declaration.lower]
    simp only [List.map_append, List.map_cons, List.map_nil]
    rw [hsteps, htemps, ← hword]
    exact ⟨rfl, rfl⟩

theorem Assignment.erase_trace (table : SymbolTable) (supply : Supply) (a : Assignment) :
    (a.trace table supply).steps.map Step.instruction = (a.lower supply).code ∧
      (a.trace table supply).supply = (a.lower supply).supply := by
  obtain ⟨hsteps, hword, htemps⟩ := Expr.erase_trace table supply.temps a.value
  rw [Assignment.trace, Assignment.lower]
  simp only [List.map_append, List.map_cons, List.map_nil]
  rw [hsteps, htemps, ← hword]
  exact ⟨rfl, rfl⟩

mutual

/-- **Without its notes the trace of a statement is its code.** -/
theorem Stmt.erase_trace (table : SymbolTable) (supply : Supply) : (stmt : Stmt) →
    (stmt.trace table supply).steps.map Step.instruction = (stmt.lower supply).code ∧
      (stmt.trace table supply).supply = (stmt.lower supply).supply
  | .declare decl => Declaration.erase_trace table supply decl
  | .assign a => Assignment.erase_trace table supply a
  | .call callee args => by
    obtain ⟨hsteps, -, htemps⟩ := Expr.erase_trace table supply.temps (.call callee args)
    exact ⟨hsteps, congrArg (Supply.mk · supply.labels) htemps⟩
  | .ret none line => ⟨rfl, rfl⟩
  | .ret (some value) line => by
    obtain ⟨hsteps, hword, htemps⟩ := Expr.erase_trace table supply.temps value
    rw [Stmt.trace, Stmt.lower]
    simp only [List.map_append, List.map_cons, List.map_nil]
    rw [hsteps, hword, htemps]
    exact ⟨rfl, rfl⟩
  | .branch cond yes no => by
    obtain ⟨hcond, hword, htemps⟩ := Expr.erase_trace table supply.temps cond
    obtain ⟨hyes, hyes'⟩ := Stmt.erase_traceAll (table.enter "block")
      ⟨(cond.lower supply.temps).temps, supply.labels + 2⟩ yes
    obtain ⟨hno, hno'⟩ := Stmt.erase_traceElse
      (Analysis.inScope table "block" (Stmt.analyzeAll · yes)).table
      (Stmt.lowerAll ⟨(cond.lower supply.temps).temps, supply.labels + 2⟩ yes).supply no
    rw [Stmt.trace, Stmt.lower]
    refine ⟨?_, ?_⟩
    · simp only [List.map_append, List.map_cons, List.map_nil, htemps, hcond, hyes, hyes', hno,
        ← hword]
      rfl
    · simp only [htemps, hyes', hno']
  | .loop init cond step body => by
    obtain ⟨hinit, hinit'⟩ := Declaration.erase_trace (table.enter "for-loop") supply init
    obtain ⟨hcond, hword, htemps⟩ := Expr.erase_trace
      (init.analyze (table.enter "for-loop")).table (init.lower supply).supply.temps cond
    obtain ⟨hbody, hbody'⟩ := Stmt.erase_traceAll
      ((init.analyze (table.enter "for-loop")).table.enter "block")
      ⟨(cond.lower (init.lower supply).supply.temps).temps,
        (init.lower supply).supply.labels + 2⟩ body
    obtain ⟨hstep, hstep'⟩ := Assignment.erase_trace
      (init.analyze (table.enter "for-loop")).table
      (Stmt.lowerAll ⟨(cond.lower (init.lower supply).supply.temps).temps,
        (init.lower supply).supply.labels + 2⟩ body).supply step
    rw [Stmt.trace, Stmt.lower]
    refine ⟨?_, ?_⟩
    · simp only [List.map_append, List.map_cons, List.map_nil, hinit, hinit', htemps, hcond, hbody,
        hbody', hstep, ← hword]
      rfl
    · simp only [hinit', htemps, hbody', hstep']

theorem Stmt.erase_traceAll (table : SymbolTable) (supply : Supply) : (stmts : List Stmt) →
    (Stmt.traceAll table supply stmts).steps.map Step.instruction =
        (Stmt.lowerAll supply stmts).code ∧
      (Stmt.traceAll table supply stmts).supply = (Stmt.lowerAll supply stmts).supply
  | [] => ⟨rfl, rfl⟩
  | stmt :: stmts => by
    obtain ⟨hstmt, hstmt'⟩ := Stmt.erase_trace table supply stmt
    obtain ⟨hstmts, hstmts'⟩ :=
      Stmt.erase_traceAll (stmt.analyze table).table (stmt.lower supply).supply stmts
    rw [Stmt.traceAll, Stmt.lowerAll]
    simp only [List.map_append]
    rw [hstmt, hstmt', hstmts, hstmts']
    exact ⟨rfl, rfl⟩

theorem Stmt.erase_traceElse (table : SymbolTable) (supply : Supply) :
    (no : Option (List Stmt)) →
    (Stmt.traceElse table supply no).steps.map Step.instruction =
        (Stmt.lowerElse supply no).code ∧
      (Stmt.traceElse table supply no).supply = (Stmt.lowerElse supply no).supply
  | none => ⟨rfl, rfl⟩
  | some stmts => Stmt.erase_traceAll (table.enter "block") supply stmts

end

/-! ## 4. The uses of the trace are those of the tree -/

/-- The uses that the word stands for, as a list of at most one. -/
def Word.uses {access : Access} (word : Word access) : List Use := word.use.toList

theorem Step.uses_param (word : Word .read) : (Step.param word).uses = word.uses := by
  obtain ⟨text, use, h⟩ := word
  cases use <;> rfl

theorem Step.uses_label (name : String) : (Step.label name).uses = [] := rfl

theorem Step.uses_goto (target : String) : (Step.goto target).uses = [] := rfl

theorem Step.uses_ifFalse (word : Word .read) (target : String) :
    (Step.ifFalse word target).uses = word.uses := by
  obtain ⟨text, use, h⟩ := word
  cases use <;> rfl

theorem Step.uses_copy (id : Ident) (table : SymbolTable) (word : Word .read) :
    (Step.copy id table word).uses = word.uses ++ [⟨.written, id, table⟩] := by
  obtain ⟨text, use, h⟩ := word
  cases use <;> rfl

theorem Step.usesAll_params (words : List (Word .read)) :
    Step.usesAll (words.map Step.param) = words.flatMap Word.uses := by
  induction words with
  | nil => rfl
  | cons word words ih => rw [List.map_cons, Step.usesAll_cons, ih, Step.uses_param]; rfl

mutual

/-- The uses of the steps and of the word that holds the value are the uses of the expression. -/
theorem Expr.perm_uses_trace (table : SymbolTable) (temps : Nat) : (e : Expr) →
    (Step.usesAll (e.trace table temps).steps ++ (e.trace table temps).word.uses).Perm
      (e.uses table)
  | .number _ | .string _ => .nil
  | .ident id => .refl _
  | .binary op left right => by
    have hleft := Expr.perm_uses_trace table temps left
    have hright := Expr.perm_uses_trace table (left.trace table temps).temps right
    rw [Expr.uses, Expr.reads, List.map_append]
    refine .trans ?_ (hleft.append hright)
    -- The words of both operands are read last, by the operation itself.
    rw [List.perm_iff_count]
    intro u
    simp only [Expr.trace, Step.usesAll_append, Step.usesAll_cons, Step.usesAll_nil, Step.uses,
      Word.uses, Word.plain, Option.toList, List.filterMap_cons, List.filterMap_nil,
      List.count_append, List.append_nil]
    cases (left.trace table temps).word.use <;>
      cases (right.trace table (left.trace table temps).temps).word.use <;>
        simp [List.count_cons] <;> omega
  | .unary op operand => by
    have hoperand := Expr.perm_uses_trace table temps operand
    refine .trans ?_ hoperand
    rw [List.perm_iff_count]
    intro u
    simp only [Expr.trace, Step.usesAll_append, Step.usesAll_cons, Step.usesAll_nil, Step.uses,
      Word.uses, Word.plain, Option.toList, List.filterMap_cons, List.filterMap_nil,
      List.count_append, List.append_nil]
    cases (operand.trace table temps).word.use <;> simp [List.count_cons]
  | .call callee args => by
    have hargs := Expr.perm_uses_traceAll table temps args
    refine .trans (.of_eq ?_) hargs
    simp only [Expr.trace, Step.usesAll_append, Step.usesAll_params, Step.usesAll_cons,
      Step.usesAll_nil, Step.uses, Word.uses, Word.plain, Option.toList, List.filterMap_cons,
      List.filterMap_nil, List.append_nil]

theorem Expr.perm_uses_traceAll (table : SymbolTable) (temps : Nat) : (es : List Expr) →
    (Step.usesAll (Expr.traceAll table temps es).steps ++
      (Expr.traceAll table temps es).words.flatMap Word.uses).Perm
      ((Expr.readsAll es).map (⟨.read, ·, table⟩))
  | [] => .nil
  | e :: es => by
    have he := Expr.perm_uses_trace table temps e
    have hes := Expr.perm_uses_traceAll table (e.trace table temps).temps es
    rw [Expr.readsAll, List.map_append]
    refine .trans ?_ (he.append hes)
    rw [List.perm_iff_count]
    intro u
    simp only [Expr.traceAll, Step.usesAll_append, List.flatMap_cons, List.count_append]
    omega

end

/-- Whether the value of the variable is touched: it is read or written. -/
def Use.isTouch (use : Use) : Bool := use.access ≠ .declared

theorem Expr.filter_isTouch_uses (table : SymbolTable) (e : Expr) :
    (e.uses table).filter Use.isTouch = e.uses table := by
  rw [List.filter_eq_self]
  intro u hu
  obtain ⟨id, -, rfl⟩ := List.mem_map.mp hu
  rfl

theorem Declaration.perm_uses_trace (table : SymbolTable) (supply : Supply) (decl : Declaration) :
    (Step.usesAll (decl.trace table supply).steps).Perm
      ((decl.uses table).filter Use.isTouch) := by
  obtain ⟨target, init⟩ := decl
  cases init with
  | none => exact .nil
  | some init =>
    have hinit := Expr.perm_uses_trace
      (Declaration.analyze table ⟨target, some init⟩).table supply.temps init
    rw [Declaration.trace, Step.usesAll_append, Step.usesAll_cons, Step.usesAll_nil,
      Step.uses_copy, List.append_nil, ← List.append_assoc, Declaration.uses,
      List.filter_cons_of_neg (by simp [Use.isTouch]), List.filter_append,
      Expr.filter_isTouch_uses]
    exact hinit.append_right _

theorem Assignment.perm_uses_trace (table : SymbolTable) (supply : Supply) (a : Assignment) :
    (Step.usesAll (a.trace table supply).steps).Perm ((a.uses table).filter Use.isTouch) := by
  have hvalue := Expr.perm_uses_trace table supply.temps a.value
  rw [Assignment.trace, Step.usesAll_append, Step.usesAll_cons, Step.usesAll_nil, Step.uses_copy,
    List.append_nil, ← List.append_assoc, Assignment.uses, List.filter_append,
    Expr.filter_isTouch_uses]
  exact hvalue.append_right _

mutual

/-- **Each reading and writing use of the tree stands in the code just once.** -/
theorem Stmt.perm_uses_trace (table : SymbolTable) (supply : Supply) : (stmt : Stmt) →
    (Step.usesAll (stmt.trace table supply).steps).Perm
      ((stmt.uses table).filter Use.isTouch)
  | .declare decl => Declaration.perm_uses_trace table supply decl
  | .assign a => Assignment.perm_uses_trace table supply a
  | .call callee args => by
    have hcall := Expr.perm_uses_trace table supply.temps (.call callee args)
    rw [Stmt.uses, Expr.filter_isTouch_uses]
    refine .trans (.of_eq ?_) hcall
    exact (List.append_nil _).symm
  | .ret none line => .nil
  | .ret (some value) line => by
    have hvalue := Expr.perm_uses_trace table supply.temps value
    rw [Stmt.uses, Expr.filter_isTouch_uses]
    refine .trans (.of_eq ?_) hvalue
    rw [Stmt.trace, Step.usesAll_append, Step.usesAll_cons, Step.usesAll_nil]
    cases h : (value.trace table supply.temps).word.use <;> simp [Step.uses, Word.uses, h]
  | .branch cond yes no => by
    have hcond := Expr.perm_uses_trace table supply.temps cond
    have hyes := Stmt.perm_uses_traceAll (table.enter "block")
      ⟨(cond.trace table supply.temps).temps, supply.labels + 2⟩ yes
    have hno := Stmt.perm_uses_traceElse
      (Analysis.inScope table "block" (Stmt.analyzeAll · yes)).table
      (Stmt.traceAll (table.enter "block")
        ⟨(cond.trace table supply.temps).temps, supply.labels + 2⟩ yes).supply no
    rw [Stmt.uses, List.filter_append, List.filter_append, Expr.filter_isTouch_uses]
    refine .trans (.of_eq ?_) ((hcond.append hyes).append hno)
    simp only [Stmt.trace, Step.usesAll_append, Step.usesAll_cons, Step.usesAll_nil,
      Step.uses_ifFalse, Step.uses_label, Step.uses_goto, List.append_nil]
  | .loop init cond step body => by
    have hinit := Declaration.perm_uses_trace (table.enter "for-loop") supply init
    have hcond := Expr.perm_uses_trace (init.analyze (table.enter "for-loop")).table
      (init.trace (table.enter "for-loop") supply).supply.temps cond
    have hbody := Stmt.perm_uses_traceAll
      ((init.analyze (table.enter "for-loop")).table.enter "block")
      ⟨(cond.trace (init.analyze (table.enter "for-loop")).table
        (init.trace (table.enter "for-loop") supply).supply.temps).temps,
        (init.trace (table.enter "for-loop") supply).supply.labels + 2⟩ body
    have hstep := Assignment.perm_uses_trace (init.analyze (table.enter "for-loop")).table
      (Stmt.traceAll ((init.analyze (table.enter "for-loop")).table.enter "block")
        ⟨(cond.trace (init.analyze (table.enter "for-loop")).table
          (init.trace (table.enter "for-loop") supply).supply.temps).temps,
          (init.trace (table.enter "for-loop") supply).supply.labels + 2⟩ body).supply step
    rw [Stmt.uses]
    simp only [List.filter_append, Expr.filter_isTouch_uses]
    refine .trans (.of_eq ?_) (((hinit.append hcond).append hbody).append hstep)
    simp only [Stmt.trace, Step.usesAll_append, Step.usesAll_cons, Step.usesAll_nil,
      Step.uses_ifFalse, Step.uses_label, Step.uses_goto, List.append_nil, List.nil_append,
      List.append_assoc]

theorem Stmt.perm_uses_traceAll (table : SymbolTable) (supply : Supply) : (stmts : List Stmt) →
    (Step.usesAll (Stmt.traceAll table supply stmts).steps).Perm
      ((Stmt.usesAll table stmts).filter Use.isTouch)
  | [] => .nil
  | stmt :: stmts => by
    have hstmt := Stmt.perm_uses_trace table supply stmt
    have hstmts := Stmt.perm_uses_traceAll (stmt.analyze table).table
      (stmt.trace table supply).supply stmts
    rw [Stmt.traceAll, Step.usesAll_append, Stmt.usesAll, List.filter_append]
    exact hstmt.append hstmts

theorem Stmt.perm_uses_traceElse (table : SymbolTable) (supply : Supply) :
    (no : Option (List Stmt)) →
    (Step.usesAll (Stmt.traceElse table supply no).steps).Perm
      ((Stmt.usesElse table no).filter Use.isTouch)
  | none => .nil
  | some stmts => Stmt.perm_uses_traceAll (table.enter "block") supply stmts

end

theorem Step.mem_usesAll {steps : List Step} {u : Use} :
    u ∈ Step.usesAll steps ↔
      (∃ step ∈ steps, ∃ word ∈ step.reads, word.use = some u) ∨
        ∃ step ∈ steps, ∃ word ∈ step.writes, word.use = some u := by
  simp only [Step.usesAll, Step.uses, List.mem_flatMap, List.mem_append, List.mem_filterMap,
    Option.mem_toList, Option.mem_def, and_or_left, exists_or]

namespace Function

variable {before : List Function} {f : Function} {u : Use}

theorem mem_usesAll_trace : u ∈ Step.usesAll (f.trace before) ↔ u ∈ f.uses before ∧ u.isTouch := by
  rw [trace, (Stmt.perm_uses_traceAll _ _ f.body).mem_iff, List.mem_filter, uses]

theorem exists_written_iff :
    (∃ step ∈ f.trace before, ∃ word ∈ step.writes, word.use = some u) ↔
      u ∈ f.uses before ∧ u.access = .written := by
  constructor
  · intro h
    obtain ⟨step, hstep, word, hword, huse⟩ := h
    have hmem := mem_usesAll_trace.mp (Step.mem_usesAll.mpr (.inr ⟨step, hstep, word, hword, huse⟩))
    exact ⟨hmem.1, (word.of_use u huse).2⟩
  · intro h
    obtain ⟨hmem, haccess⟩ := h
    have htouch : u.isTouch = true := by simp [Use.isTouch, haccess]
    rcases Step.mem_usesAll.mp (mem_usesAll_trace.mpr ⟨hmem, htouch⟩) with hread | hwritten
    · obtain ⟨step, -, word, -, huse⟩ := hread
      have := (word.of_use u huse).2
      rw [haccess] at this
      cases this
    · exact hwritten

theorem exists_read_iff :
    (∃ step ∈ f.trace before, ∃ word ∈ step.reads, word.use = some u) ↔
      u ∈ f.uses before ∧ u.access = .read := by
  constructor
  · intro h
    obtain ⟨step, hstep, word, hword, huse⟩ := h
    have hmem := mem_usesAll_trace.mp (Step.mem_usesAll.mpr (.inl ⟨step, hstep, word, hword, huse⟩))
    exact ⟨hmem.1, (word.of_use u huse).2⟩
  · intro h
    obtain ⟨hmem, haccess⟩ := h
    have htouch : u.isTouch = true := by simp [Use.isTouch, haccess]
    rcases Step.mem_usesAll.mp (mem_usesAll_trace.mpr ⟨hmem, htouch⟩) with hread | hwritten
    · exact hread
    · obtain ⟨step, -, word, -, huse⟩ := hwritten
      have := (word.of_use u huse).2
      rw [haccess] at this
      cases this

end Function

/-! ## 5. When shadowing survives -/

/-- The word stands for a use of the declaration. -/
def Word.BelongsTo {access : Access} (word : Word access) (d : Declared) : Prop :=
  ∃ u, word.use = some u ∧ u.declaration? = some d

/-- No step that writes the variable `inner` writes the word that a step reads for `outer`. -/
def Step.Apart (steps : List Step) (inner outer : Declared) : Prop :=
  ∀ step ∈ steps, ∀ target ∈ step.writes, target.BelongsTo inner →
    ∀ step' ∈ steps, ∀ source ∈ step'.reads, source.BelongsTo outer → target.text ≠ source.text

/-- Two declarations of one name are kept apart only when nothing is written through the first or
    nothing is read through the second. -/
theorem Function.apart_iff {before : List Function} {f : Function} {inner outer : Declared}
    (hname : outer.name = inner.name) :
    Step.Apart (f.trace before) inner outer ↔
      (∀ u ∈ f.uses before, u.access = .written → u.declaration? ≠ some inner) ∨
        ∀ u ∈ f.uses before, u.access = .read → u.declaration? ≠ some outer := by
  constructor
  · intro hapart
    refine Classical.byContradiction fun hnot => ?_
    simp only [not_or, Classical.not_forall, Decidable.not_not] at hnot
    obtain ⟨⟨w, hw, hwritten, hinner⟩, r, hr, hread, houter⟩ := hnot
    obtain ⟨step, hstep, target, htarget, huse⟩ := exists_written_iff.mpr ⟨hw, hwritten⟩
    obtain ⟨step', hstep', source, hsource, huse'⟩ := exists_read_iff.mpr ⟨hr, hread⟩
    refine hapart step hstep target htarget ⟨w, huse, hinner⟩ step' hstep' source hsource
      ⟨r, huse', houter⟩ ?_
    calc target.text = w.id.name := (target.of_use w huse).1
      _ = inner.name := (Use.name_of_declaration? hinner).symm
      _ = outer.name := hname.symm
      _ = r.id.name := Use.name_of_declaration? houter
      _ = source.text := ((source.of_use r huse').1).symm
  · intro hnone step hstep target htarget htargets step' hstep' source hsource hsources _
    obtain ⟨w, huse, hinner⟩ := htargets
    obtain ⟨r, huse', houter⟩ := hsources
    rcases hnone with hnone | hnone
    · obtain ⟨hw, hwritten⟩ := exists_written_iff.mp ⟨step, hstep, target, htarget, huse⟩
      exact hnone w hw hwritten hinner
    · obtain ⟨hr, hread⟩ := exists_read_iff.mp ⟨step', hstep', source, hsource, huse'⟩
      exact hnone r hr hread houter

namespace Artifacts

variable {source : String} {artifacts : Artifacts} {before after : List Function} {f : Function}

/-- **When shadowing survives lowering**: in the code of a function, the writes through every
    declaration that shadows another keep off the word read through that other one, just when no
    declaration that is given a value shadows a variable that is read. -/
theorem shadowing_survives_iff (h : compile source = .compiled artifacts)
    (hprogram : artifacts.program = before ++ f :: after) :
    (f.trace before).map Step.instruction = artifacts.code.bodyOf f.id.name ∧
      ((∀ inner outer, f.Shadows before inner outer → Step.Apart (f.trace before) inner outer) ↔
        ∀ inner outer, f.Shadows before inner outer →
          (∀ u ∈ f.uses before, u.access = .written → u.declaration? ≠ some inner) ∨
            ∀ u ∈ f.uses before, u.access = .read → u.declaration? ≠ some outer) := by
  refine ⟨?_, ?_⟩
  · rw [bodyOf_code h hprogram, Function.trace, (Stmt.erase_traceAll _ _ f.body).1]
  · have hpair : ∀ inner outer, f.Shadows before inner outer →
        (Step.Apart (f.trace before) inner outer ↔ _) :=
      fun inner outer ⟨_, _, hshadows⟩ => Function.apart_iff (Use.of_shadows hshadows).2
    exact ⟨fun hapart inner outer hshadows => (hpair inner outer hshadows).mp (hapart _ _ hshadows),
      fun hnone inner outer hshadows => (hpair inner outer hshadows).mpr (hnone _ _ hshadows)⟩

/-- A parameter that is shadowed in a block and never read. -/
def unreadParameter : String :=
  "int f(int x) \x7b if (1) \x7b int x = 2; return x; \x7d return 0; \x7d"

/-- The function of `unreadParameter`. -/
def unreadFunction : Function :=
  ⟨.int, ⟨"f", 1⟩, [⟨.int, ⟨"x", 1⟩⟩], [
    .branch (.number "1")
      [.declare ⟨⟨"x", 1⟩, some (.number "2")⟩, .ret (some (.ident ⟨"x", 1⟩)) 1] none,
    .ret (some (.number "0")) 1]⟩

theorem shadowing_survives_unreadParameter :
    compile unreadParameter = .compiled (.ofSource unreadParameter) ∧
      (ofSource unreadParameter).program = [] ++ unreadFunction :: [] ∧
      unreadFunction.Shadows [] ⟨2, "x"⟩ ⟨1, "x"⟩ ∧
      ∀ inner outer, unreadFunction.Shadows [] inner outer →
        Step.Apart (unreadFunction.trace []) inner outer := by
  have hread : Program.read (Token.scan unreadParameter) = ⟨[unreadFunction], [], []⟩ := by cbv
  obtain ⟨hcompile, hprogram⟩ := compile_of_read hread (by cbv)
  have hsplit : (ofSource unreadParameter).program = [] ++ unreadFunction :: [] := hprogram
  have hshadows : unreadFunction.Shadows [] ⟨2, "x"⟩ ⟨1, "x"⟩ :=
    List.any_eq_true.mp (by cbv : (unreadFunction.uses []).any (·.shadows ⟨2, "x"⟩ ⟨1, "x"⟩) = true)
  -- Every use in the function is one of the variable declared in the block.
  have huses : (unreadFunction.uses []).all (fun u => u.declaration? = some ⟨2, "x"⟩ &&
      !u.shadows ⟨2, "x"⟩ ⟨2, "x"⟩) = true := by cbv
  rw [List.all_eq_true] at huses
  refine ⟨hcompile, hsplit, hshadows, ?_⟩
  refine (shadowing_survives_iff hcompile hsplit).2.mpr ?_
  intro inner outer hshadowing
  obtain ⟨u, hu, hmakes⟩ := hshadowing
  refine .inr fun v hv _ houter => ?_
  have hu' := huses u hu
  have hv' := huses v hv
  simp only [Bool.and_eq_true, decide_eq_true_eq, Bool.not_eq_true'] at hu' hv'
  have hinner : inner = ⟨2, "x"⟩ :=
    Option.some.inj ((Use.of_shadows hmakes).1.symm.trans hu'.1)
  have houter' : outer = ⟨2, "x"⟩ := Option.some.inj (houter.symm.trans hv'.1)
  rw [hinner, houter', hu'.2] at hmakes
  cases hmakes

/-- A variable that is read after a block in which it is shadowed. -/
def readAfterBlock : String :=
  "int f() \x7b int x = 1; if (x) \x7b int x = 2; \x7d return x; \x7d"

/-- The function of `readAfterBlock`. -/
def readAfterFunction : Function :=
  ⟨.int, ⟨"f", 1⟩, [], [
    .declare ⟨⟨"x", 1⟩, some (.number "1")⟩,
    .branch (.ident ⟨"x", 1⟩) [.declare ⟨⟨"x", 1⟩, some (.number "2")⟩] none,
    .ret (some (.ident ⟨"x", 1⟩)) 1]⟩

/-- **Shadowing need not survive lowering**: the copy in the block overwrites the outer variable,
    which is read after it. -/
theorem shadowing_not_always_survives :
    ¬ ∀ (source : String) (artifacts : Artifacts) (before after : List Function) (f : Function),
      compile source = .compiled artifacts → artifacts.program = before ++ f :: after →
        ∀ inner outer, f.Shadows before inner outer →
          Step.Apart (f.trace before) inner outer := by
  intro hsurvives
  have hparse : Program.read (Token.scan readAfterBlock) = ⟨[readAfterFunction], [], []⟩ := by cbv
  obtain ⟨hcompile, hprogram⟩ := compile_of_read hparse (by cbv)
  have hsplit : (ofSource readAfterBlock).program = [] ++ readAfterFunction :: [] := hprogram
  have hshadows : readAfterFunction.Shadows [] ⟨2, "x"⟩ ⟨1, "x"⟩ :=
    List.any_eq_true.mp
      (by cbv : (readAfterFunction.uses []).any (·.shadows ⟨2, "x"⟩ ⟨1, "x"⟩) = true)
  have hwritten : (readAfterFunction.uses []).any (fun u =>
      u.access = .written && u.declaration? = some ⟨2, "x"⟩) = true := by cbv
  have hread : (readAfterFunction.uses []).any (fun u =>
      u.access = .read && u.declaration? = some ⟨1, "x"⟩) = true := by cbv
  simp only [List.any_eq_true, Bool.and_eq_true, decide_eq_true_eq] at hwritten hread
  obtain ⟨w, hw, hwritten, hinner⟩ := hwritten
  obtain ⟨r, hr, hread, houter⟩ := hread
  have hapart := hsurvives _ _ _ _ _ hcompile hsplit _ _ hshadows
  have hname : (Declared.mk 1 "x").name = (Declared.mk 2 "x").name := rfl
  rcases (Function.apart_iff hname).mp hapart with hnone | hnone
  · exact hnone w hw hwritten hinner
  · exact hnone r hr hread houter

end Artifacts

end MiniC
