import Mathlib
import MiniC.Proofs.Code.Section

/-!
# Temporaries and the names of variables

Temporaries and variables share one space of names, and lowering never looks at the variables when
it takes a temporary. A function that comes after `n` operations and has `k` of its own takes
exactly the temporaries `n + 1` to `n + k`; its temporaries are apart from its variables exactly
when none of these names is declared in it, and its copies leave its temporaries alone exactly when
none of these names is given a value in it.
-/

namespace MiniC

/-! ## 1. Names declared and names given a value -/

mutual

/-- The names declared anywhere in a statement, in source order. -/
def Stmt.declaredNames : Stmt → List String
  | .declare decl => [decl.target.name]
  | .assign _ | .call _ _ | .ret _ _ => []
  | .branch _ yes no => Stmt.declaredNamesAll yes ++ Stmt.declaredNamesElse no
  | .loop init _ _ body => init.target.name :: Stmt.declaredNamesAll body

/-- The names declared anywhere in statements. -/
def Stmt.declaredNamesAll : List Stmt → List String
  | [] => []
  | stmt :: stmts => stmt.declaredNames ++ Stmt.declaredNamesAll stmts

/-- The names declared anywhere in an `else` block, if there is one. -/
def Stmt.declaredNamesElse : Option (List Stmt) → List String
  | none => []
  | some stmts => Stmt.declaredNamesAll stmts

end

/-- The names of the parameters and of the variables declared anywhere in a function. -/
def Function.declaredNames (f : Function) : List String :=
  f.params.map (·.id.name) ++ Stmt.declaredNamesAll f.body

/-- The name that a declaration gives a value, if it gives one. -/
def Declaration.valuedNames (decl : Declaration) : List String :=
  (decl.init.map fun _ => decl.target.name).toList

mutual

/-- The names that a statement gives a value, by a declaration or an assignment. -/
def Stmt.valuedNames : Stmt → List String
  | .declare decl => decl.valuedNames
  | .assign a => [a.target.name]
  | .call _ _ | .ret _ _ => []
  | .branch _ yes no => Stmt.valuedNamesAll yes ++ Stmt.valuedNamesElse no
  | .loop init _ step body => init.valuedNames ++ Stmt.valuedNamesAll body ++ [step.target.name]

/-- The names that statements give a value. -/
def Stmt.valuedNamesAll : List Stmt → List String
  | [] => []
  | stmt :: stmts => stmt.valuedNames ++ Stmt.valuedNamesAll stmts

/-- The names that an `else` block gives a value, if there is one. -/
def Stmt.valuedNamesElse : Option (List Stmt) → List String
  | none => []
  | some stmts => Stmt.valuedNamesAll stmts

end

/-! ## 2. The copies of the code -/

/-- The name that the instruction copies a value to. -/
def Instruction.copied? : Instruction → Option String
  | .copy dest _ => some dest
  | _ => none

/-- The names that the code copies values to, in order. -/
def Code.copied (code : Code) : List String := code.filterMap Instruction.copied?

@[simp] theorem Code.copied_append (a b : Code) :
    Code.copied (a ++ b) = Code.copied a ++ Code.copied b :=
  List.filterMap_append

theorem Code.copied_cons (i : Instruction) (code : Code) :
    Code.copied (i :: code) = i.copied?.toList ++ Code.copied code := by
  rw [Code.copied, List.filterMap_cons]
  cases i.copied? <;> rfl

@[simp] theorem Code.copied_nil : Code.copied [] = [] := rfl

@[simp] theorem Expr.copied_lower (temps : Nat) (e : Expr) :
    Code.copied (e.lower temps).code = [] := by
  rw [Code.copied, List.filterMap_eq_nil_iff]
  intro i hi
  have h := Expr.isComputation_of_mem_lower e hi
  cases i <;> first | rfl | cases h

theorem Declaration.copied_lower (supply : Supply) (decl : Declaration) :
    Code.copied (decl.lower supply).code = decl.valuedNames := by
  obtain ⟨target, init⟩ := decl
  cases init with
  | none => rfl
  | some init =>
    rw [Declaration.lower, Code.copied_append, Expr.copied_lower]
    rfl

theorem Assignment.copied_lower (supply : Supply) (a : Assignment) :
    Code.copied (a.lower supply).code = [a.target.name] := by
  rw [Assignment.lower, Code.copied_append, Expr.copied_lower]
  rfl

mutual

/-- **The code copies to the names that are given a value, in the order of the code.** -/
theorem Stmt.copied_lower (supply : Supply) : (stmt : Stmt) →
    Code.copied (stmt.lower supply).code = stmt.valuedNames
  | .declare decl => Declaration.copied_lower supply decl
  | .assign a => Assignment.copied_lower supply a
  | .call callee args => Expr.copied_lower supply.temps (.call callee args)
  | .ret none line => rfl
  | .ret (some value) line => by
    rw [Stmt.lower, Code.copied_append, Expr.copied_lower]
    rfl
  | .branch cond yes no => by
    rw [Stmt.lower, Stmt.valuedNames]
    simp only [Code.copied_append, Expr.copied_lower, Stmt.copied_lowerAll,
      Stmt.copied_lowerElse]
    simp [Code.copied_cons, Instruction.copied?]
  | .loop init cond step body => by
    rw [Stmt.lower, Stmt.valuedNames]
    simp only [Code.copied_append, Expr.copied_lower, Declaration.copied_lower,
      Assignment.copied_lower, Stmt.copied_lowerAll]
    simp [Code.copied_cons, Instruction.copied?]

theorem Stmt.copied_lowerAll (supply : Supply) : (stmts : List Stmt) →
    Code.copied (Stmt.lowerAll supply stmts).code = Stmt.valuedNamesAll stmts
  | [] => rfl
  | stmt :: stmts => by
    rw [Stmt.lowerAll, Code.copied_append, Stmt.copied_lower, Stmt.copied_lowerAll]
    rfl

theorem Stmt.copied_lowerElse (supply : Supply) : (no : Option (List Stmt)) →
    Code.copied (Stmt.lowerElse supply no).code = Stmt.valuedNamesElse no
  | none => rfl
  | some stmts => Stmt.copied_lowerAll supply stmts

end

/-! ## 3. When temporaries are fresh -/

namespace Artifacts

variable {source : String} {artifacts : Artifacts} {before after : List Function} {f : Function}

/-- The temporaries of a function are the next ones after those of the functions before it. -/
theorem temporaries_bodyOf (h : compile source = .compiled artifacts)
    (hprogram : artifacts.program = before ++ f :: after) :
    (artifacts.code.bodyOf f.id.name).temporaries =
      tempRange (Function.operationsAll before) f.operations := by
  rw [bodyOf_code h hprogram, (Stmt.temporaries_lowerAll _ f.body).2, Function.temps_lowerAll]
  show tempRange (0 + _) _ = _
  rw [Nat.zero_add]
  rfl

/-- **When the temporaries of a function are fresh**: none is a name declared in the function just
    when no name among the temporaries of the function's place in the program is declared in it,
    and no copy overwrites one just when no such name is given a value in it. -/
theorem temporaries_fresh_iff (h : compile source = .compiled artifacts)
    (hprogram : artifacts.program = before ++ f :: after) :
    ((∀ t ∈ (artifacts.code.bodyOf f.id.name).temporaries, t ∉ f.declaredNames) ↔
      ∀ k, Function.operationsAll before < k →
        k ≤ Function.operationsAll before + f.operations → temp k ∉ f.declaredNames) ∧
    ((∀ x ∈ (artifacts.code.bodyOf f.id.name).copied,
        x ∉ (artifacts.code.bodyOf f.id.name).temporaries) ↔
      ∀ k, Function.operationsAll before < k →
        k ≤ Function.operationsAll before + f.operations →
        temp k ∉ Stmt.valuedNamesAll f.body) := by
  have hcopied : (artifacts.code.bodyOf f.id.name).copied = Stmt.valuedNamesAll f.body := by
    rw [bodyOf_code h hprogram, Stmt.copied_lowerAll]
  rw [temporaries_bodyOf h hprogram, hcopied]
  refine ⟨⟨fun hfresh k hlo hhi => ?_, fun hfree t ht => ?_⟩,
    ⟨fun hfresh k hlo hhi hmem => ?_, fun hfree x hx hmem => ?_⟩⟩
  · exact hfresh (temp k) (mem_tempRange.mpr ⟨k, hlo, hhi, rfl⟩)
  · obtain ⟨k, hlo, hhi, rfl⟩ := mem_tempRange.mp ht
    exact hfree k hlo hhi
  · exact hfresh (temp k) hmem (mem_tempRange.mpr ⟨k, hlo, hhi, rfl⟩)
  · obtain ⟨k, hlo, hhi, rfl⟩ := mem_tempRange.mp hmem
    exact hfree k hlo hhi hx

/-- Two functions with parameters spelled like temporaries, each like one of the other's. -/
def crossedNames : String :=
  "int g(int t2) \x7b return t2 + 1; \x7d int f(int t1) \x7b return 2 * t1; \x7d"

/-- The first function of `crossedNames`. -/
def crossedFirst : Function :=
  ⟨.int, ⟨"g", 1⟩, [⟨.int, ⟨"t2", 1⟩⟩],
    [.ret (some (.binary .add (.ident ⟨"t2", 1⟩) (.number "1"))) 1]⟩

/-- The second function of `crossedNames`. -/
def crossedSecond : Function :=
  ⟨.int, ⟨"f", 1⟩, [⟨.int, ⟨"t1", 1⟩⟩],
    [.ret (some (.binary .mul (.number "2") (.ident ⟨"t1", 1⟩))) 1]⟩

theorem temporaries_fresh_crossedNames :
    compile crossedNames = .compiled (.ofSource crossedNames) ∧
      (ofSource crossedNames).program = [crossedFirst] ++ crossedSecond :: [] ∧
      (∀ t ∈ ((ofSource crossedNames).code.bodyOf "f").temporaries,
        t ∉ crossedSecond.declaredNames) ∧
      ∀ x ∈ ((ofSource crossedNames).code.bodyOf "f").copied,
        x ∉ ((ofSource crossedNames).code.bodyOf "f").temporaries := by
  have hread :
      Program.read (Token.scan crossedNames) = ⟨[crossedFirst, crossedSecond], [], []⟩ := by
    cbv
  obtain ⟨hcompile, hprogram⟩ := compile_of_read hread (by cbv)
  have hsplit : (ofSource crossedNames).program = [crossedFirst] ++ crossedSecond :: [] := hprogram
  -- The second function takes the one temporary `t2`, which is a parameter of the first only.
  have hnumber : ∀ k, Function.operationsAll [crossedFirst] < k →
      k ≤ Function.operationsAll [crossedFirst] + crossedSecond.operations → k = 2 := by
    intro k hlo hhi
    have hlo' : 1 < k := hlo
    have hhi' : k ≤ 1 + 1 := hhi
    omega
  obtain ⟨hdeclared, hcopied⟩ := temporaries_fresh_iff hcompile hsplit
  refine ⟨hcompile, hsplit, hdeclared.mpr fun k hlo hhi => ?_, hcopied.mpr fun k hlo hhi => ?_⟩
  · rw [hnumber k hlo hhi]
    decide
  · rw [hnumber k hlo hhi]
    decide

/-- A function whose parameter is spelled like the first temporary of the program. -/
def clashingName : String := "int f(int t1) \x7b return (1 + 2) + t1; \x7d"

/-- **Temporaries need not be fresh**: the sum of the literals overwrites the parameter. -/
theorem temporaries_not_always_fresh :
    ¬ ∀ (source : String) (artifacts : Artifacts) (before after : List Function) (f : Function),
      compile source = .compiled artifacts → artifacts.program = before ++ f :: after →
        ∀ t ∈ (artifacts.code.bodyOf f.id.name).temporaries, t ∉ f.declaredNames := by
  intro hfresh
  have hread : Program.read (Token.scan clashingName) = ⟨[⟨.int, ⟨"f", 1⟩, [⟨.int, ⟨"t1", 1⟩⟩],
      [.ret (some (.binary .add (.binary .add (.number "1") (.number "2"))
        (.ident ⟨"t1", 1⟩))) 1]⟩], [], []⟩ := by
    cbv
  obtain ⟨hcompile, hprogram⟩ := compile_of_read hread (by cbv)
  have hsplit : (ofSource clashingName).program = [] ++ _ :: [] := hprogram
  refine hfresh _ _ _ _ _ hcompile hsplit "t1" ?_ List.mem_cons_self
  rw [temporaries_bodyOf hcompile hsplit]
  exact mem_tempRange.mpr ⟨1, by decide, by decide, rfl⟩

end Artifacts

end MiniC
