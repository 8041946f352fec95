import MiniC.Compile.Outcome
import MiniC.Proofs.Code.Supply
import MiniC.Proofs.Scope.Frames

/-!
# The section of a function

The code of a program holds the code of each function between two marks with the function's name.
In a program that compiles the names of functions differ, so the marks find the section again: it
is the code of the body, lowered with what the functions before it have left of the supply.
-/

namespace MiniC

/-! ## 1. Finding a section -/

/-- The code between the marks of the function called `name`. -/
def Code.bodyOf (name : String) (code : Code) : Code :=
  ((code.dropWhile (· ≠ .funcBegin name)).drop 1).takeWhile (· ≠ .funcEnd name)

namespace Function

theorem lowerAll_append (supply : Supply) (fs gs : List Function) :
    (lowerAll supply (fs ++ gs)).code =
      (lowerAll supply fs).code ++ (lowerAll (lowerAll supply fs).supply gs).code := by
  induction fs generalizing supply with
  | nil => rfl
  | cons f fs ih =>
    show (f.lower supply).code ++ (lowerAll (f.lower supply).supply (fs ++ gs)).code = _
    rw [ih, ← List.append_assoc]
    rfl

theorem funcBegin_of_mem_lower {supply : Supply} {f : Function} {name : String}
    (h : .funcBegin name ∈ (f.lower supply).code) : name = f.id.name := by
  rw [Function.lower] at h
  simp only [List.mem_append, List.mem_singleton, Instruction.funcBegin.injEq, reduceCtorEq,
    or_false] at h
  rcases h with h | h
  · exact h
  · cases Stmt.isMark_of_mem_lowerAll f.body h

theorem funcBegin_of_mem_lowerAll {name : String} (fs : List Function) : ∀ {supply : Supply},
    .funcBegin name ∈ (lowerAll supply fs).code → name ∈ fs.map (·.id.name) := by
  induction fs with
  | nil =>
    intro supply h
    cases h
  | cons f fs ih =>
    intro supply h
    rw [lowerAll, List.mem_append] at h
    rcases h with h | h
    · exact List.mem_cons.mpr (.inl (funcBegin_of_mem_lower h))
    · exact List.mem_cons_of_mem _ (ih h)

/-- **The marks of a function enclose the code of its body**, when no function before it has the
    same name. -/
theorem bodyOf_lowerAll (supply : Supply) (before after : List Function) (f : Function)
    (hname : f.id.name ∉ before.map (·.id.name)) :
    Code.bodyOf f.id.name (lowerAll supply (before ++ f :: after)).code =
      (Stmt.lowerAll (lowerAll supply before).supply f.body).code := by
  have hbefore : ∀ i ∈ (lowerAll supply before).code,
      decide (i ≠ .funcBegin f.id.name) = true := by
    intro i hi
    refine decide_eq_true fun heq => hname ?_
    rw [heq] at hi
    exact funcBegin_of_mem_lowerAll before hi
  have hbody : ∀ i ∈ (Stmt.lowerAll (lowerAll supply before).supply f.body).code,
      decide (i ≠ .funcEnd f.id.name) = true := by
    intro i hi
    refine decide_eq_true fun heq => ?_
    have := Stmt.isMark_of_mem_lowerAll f.body hi
    rw [heq] at this
    cases this
  rw [Code.bodyOf, lowerAll_append, List.dropWhile_append_of_pos hbefore]
  show (List.drop 1 (List.dropWhile _ ([.funcBegin f.id.name] ++
    (Stmt.lowerAll (lowerAll supply before).supply f.body).code ++ [.funcEnd f.id.name] ++ _))
      ).takeWhile _ = _
  rw [List.append_assoc, List.append_assoc, List.singleton_append,
    List.dropWhile_cons_of_neg (by simp), List.drop_one, List.tail_cons,
    List.takeWhile_append_of_pos hbody, List.singleton_append,
    List.takeWhile_cons_of_neg (by simp), List.append_nil]

theorem temps_lower (supply : Supply) (f : Function) :
    (f.lower supply).supply.temps = supply.temps + f.operations :=
  congrArg Supply.temps (Stmt.temporaries_lowerAll supply f.body).1

/-- The functions of a program take as many temporaries as they have operations. -/
theorem temps_lowerAll (fs : List Function) : ∀ supply : Supply,
    (lowerAll supply fs).supply.temps = supply.temps + operationsAll fs := by
  induction fs with
  | nil => exact fun supply => rfl
  | cons f fs ih =>
    intro supply
    rw [operationsAll, ← Nat.add_assoc, ← temps_lower]
    exact ih _

end Function

/-! ## 2. Programs that compile -/

/-- What compiling gives for the program read from `source`. -/
def Artifacts.ofSource (source : String) : Artifacts :=
  let program := (Program.read (Token.scan source)).program
  ⟨Token.scan source, program, program.analyze.table, program.lower⟩

/-- **A text compiles when its tokens spell a program that uses its names well.** -/
theorem compile_eq_compiled_iff {source : String} {artifacts : Artifacts} :
    compile source = .compiled artifacts ↔
      (Program.read (Token.scan source)).faults = [] ∧
        (Program.read (Token.scan source)).program.analyze.errors = [] ∧
        artifacts = .ofSource source := by
  unfold compile
  constructor
  · intro h
    simp only at h
    split at h
    case isTrue hfaults =>
      split at h
      case isTrue herrors =>
        cases h
        exact ⟨List.isEmpty_iff.mp hfaults, List.isEmpty_iff.mp herrors, rfl⟩
      case isFalse => cases h
    case isFalse => cases h
  · intro hclean
    obtain ⟨hfaults, herrors, rfl⟩ := hclean
    simp only
    rw [hfaults, herrors]
    rfl

namespace Artifacts

variable {source : String} {artifacts : Artifacts} {before after : List Function} {f : Function}

/-- A text whose tokens read as a program that uses its names well compiles to that program. -/
theorem compile_of_read {program : Program} {rest : List Token}
    (hread : Program.read (Token.scan source) = ⟨program, [], rest⟩)
    (herrors : program.analyze.errors = []) :
    compile source = .compiled (.ofSource source) ∧ (ofSource source).program = program := by
  have hprogram : (Program.read (Token.scan source)).program = program := by rw [hread]
  refine ⟨compile_eq_compiled_iff.mpr ⟨by rw [hread], ?_, rfl⟩, hprogram⟩
  rw [hprogram]
  exact herrors

theorem code_eq (h : compile source = .compiled artifacts) :
    artifacts.code = artifacts.program.lower := by
  obtain ⟨-, -, rfl⟩ := compile_eq_compiled_iff.mp h
  rfl

/-- The functions of a program that compiles have different names. -/
theorem nodup_names (h : compile source = .compiled artifacts) :
    (artifacts.program.map (·.id.name)).Nodup := by
  obtain ⟨-, herrors, rfl⟩ := compile_eq_compiled_iff.mp h
  obtain ⟨added, -, -, hdistinct⟩ :=
    Function.grows_analyzeAll (ofSource source).program SymbolTable.wellFormed_new rfl
  exact (hdistinct herrors).1

/-- **The section of a function in compiled code is the code of its body**, lowered with the supply
    that the functions before it have left. -/
theorem bodyOf_code (h : compile source = .compiled artifacts)
    (hprogram : artifacts.program = before ++ f :: after) :
    artifacts.code.bodyOf f.id.name =
      (Stmt.lowerAll (Function.lowerAll ⟨0, 0⟩ before).supply f.body).code := by
  have hnodup := nodup_names h
  rw [hprogram, List.map_append, List.map_cons, List.nodup_append] at hnodup
  rw [code_eq h, hprogram, Program.lower]
  refine Function.bodyOf_lowerAll _ before after f fun hmem => ?_
  exact hnodup.2.2 _ hmem _ List.mem_cons_self rfl

end Artifacts

end MiniC
