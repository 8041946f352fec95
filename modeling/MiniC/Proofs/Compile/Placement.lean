import Mathlib
import MiniC.Compile.Outcome
import MiniC.Proofs.Grammar.Placement
import MiniC.Proofs.Scope.Placement

/-!
# Layout does not matter

Two texts whose tokens have the same kinds and texts compile alike, however their tokens are placed:
each stage gives the same without positions, so the next one gets the same without positions. Only
the lines that are told to the user can differ. Main statement: `Outcome.alike_compile`.
-/

namespace MiniC

/-! ## 1. Lowering -/

mutual

theorem Expr.lower_withoutLines (temps : Nat) : (e : Expr) →
    e.withoutLines.lower temps = e.lower temps
  | .number _ | .string _ | .ident _ => rfl
  | .unary _ operand => by
    rw [Expr.withoutLines, Expr.lower, Expr.lower, operand.lower_withoutLines temps]
  | .binary _ left right => by
    rw [Expr.withoutLines, Expr.lower, Expr.lower, left.lower_withoutLines temps,
      right.lower_withoutLines]
  | .call callee args => by
    rw [Expr.withoutLines, Expr.lower, Expr.lower, Expr.lowerAll_withoutLines temps args]
    rfl

theorem Expr.lowerAll_withoutLines (temps : Nat) : (es : List Expr) →
    Expr.lowerAll temps (Expr.withoutLinesAll es) = Expr.lowerAll temps es
  | [] => rfl
  | e :: es => by
    rw [Expr.withoutLinesAll, Expr.lowerAll, Expr.lowerAll, e.lower_withoutLines temps,
      Expr.lowerAll_withoutLines _ es]

end

theorem Declaration.lower_withoutLines (supply : Supply) (decl : Declaration) :
    decl.withoutLines.lower supply = decl.lower supply := by
  obtain ⟨target, init⟩ := decl
  cases init with
  | none => rfl
  | some init =>
    show (⟨(init.withoutLines.lower supply.temps).code ++ _, _⟩ : Fragment) = _
    rw [init.lower_withoutLines]
    rfl

theorem Assignment.lower_withoutLines (supply : Supply) (a : Assignment) :
    a.withoutLines.lower supply = a.lower supply := by
  rw [lower, lower, show a.withoutLines.value = a.value.withoutLines from rfl,
    a.value.lower_withoutLines]
  rfl

mutual

theorem Stmt.lower_withoutLines (supply : Supply) : (stmt : Stmt) →
    stmt.withoutLines.lower supply = stmt.lower supply
  | .declare decl => decl.lower_withoutLines supply
  | .assign a => a.lower_withoutLines supply
  | .call callee args => by
    have hcall := (Expr.call callee args).lower_withoutLines supply.temps
    rw [Expr.withoutLines] at hcall
    rw [Stmt.withoutLines, Stmt.lower, Stmt.lower, hcall]
  | .ret none _ => rfl
  | .ret (some value) _ => by
    show (⟨(value.withoutLines.lower supply.temps).code ++ _, _⟩ : Fragment) = _
    rw [value.lower_withoutLines]
    rfl
  | .branch cond yes no => by
    rw [Stmt.withoutLines, Stmt.lower, Stmt.lower, cond.lower_withoutLines,
      Stmt.lowerAll_withoutLines _ yes, Stmt.lowerElse_withoutLines _ no]
  | .loop init cond step body => by
    rw [Stmt.withoutLines, Stmt.lower, Stmt.lower, init.lower_withoutLines,
      cond.lower_withoutLines, Stmt.lowerAll_withoutLines _ body, step.lower_withoutLines]

theorem Stmt.lowerAll_withoutLines (supply : Supply) : (stmts : List Stmt) →
    Stmt.lowerAll supply (Stmt.withoutLinesAll stmts) = Stmt.lowerAll supply stmts
  | [] => rfl
  | stmt :: stmts => by
    rw [Stmt.withoutLinesAll, Stmt.lowerAll, Stmt.lowerAll, stmt.lower_withoutLines supply,
      Stmt.lowerAll_withoutLines _ stmts]

theorem Stmt.lowerElse_withoutLines (supply : Supply) : (no : Option (List Stmt)) →
    Stmt.lowerElse supply (Stmt.withoutLinesElse no) = Stmt.lowerElse supply no
  | none => rfl
  | some stmts => by
    rw [Stmt.withoutLinesElse, Stmt.lowerElse, Stmt.lowerElse,
      Stmt.lowerAll_withoutLines supply stmts]

end

theorem Function.lowerAll_withoutLines (fs : List Function) : ∀ supply : Supply,
    Function.lowerAll supply (fs.map Function.withoutLines) = Function.lowerAll supply fs := by
  induction fs with
  | nil => exact fun _ => rfl
  | cons f fs ih =>
    intro supply
    have hf : f.withoutLines.lower supply = f.lower supply := by
      rw [lower, lower, show f.withoutLines.body = Stmt.withoutLinesAll f.body from rfl,
        Stmt.lowerAll_withoutLines]
      rfl
    rw [List.map_cons, lowerAll, lowerAll, hf, ih]

/-- **Lines leave no trace in the code.** -/
theorem Program.lower_withoutLines (program : Program) :
    program.withoutLines.lower = program.lower :=
  congrArg Fragment.code (Function.lowerAll_withoutLines program ⟨0, 0⟩)

/-! ## 2. Errors -/

/-- What a diagnostic says apart from the number of its line: the wording, and whether it has a
    line at all. -/
def Diagnostic.gist (d : Diagnostic) : String × Bool := (d.message, d.line.isSome)

theorem SyntaxError.gist_withoutPosition (e : SyntaxError) :
    e.withoutPosition.diagnostic.gist = e.diagnostic.gist := by
  obtain ⟨expected, found⟩ := e
  cases found <;> cases expected <;> rfl

theorem SemanticError.gist_withoutLine (e : SemanticError) :
    e.withoutLine.diagnostic.gist = e.diagnostic.gist := rfl

/-! ## 3. Outcomes -/

/-- **The outcomes differ in positions only**: the artifacts are the same up to positions, with the
    very same code, or the errors of the same stage say the same in the same order. -/
inductive Outcome.Alike : Outcome → Outcome → Prop where
  | compiled {a a' : Artifacts}
      (tokens : Token.withoutPositions a.tokens = Token.withoutPositions a'.tokens)
      (program : a.program.withoutLines = a'.program.withoutLines)
      (table : a.table.withoutLines = a'.table.withoutLines)
      (code : a.code = a'.code) : Alike (.compiled a) (.compiled a')
  | malformed {errors errors' : List SyntaxError}
      (gists : errors.map (·.diagnostic.gist) = errors'.map (·.diagnostic.gist)) :
      Alike (.malformed errors) (.malformed errors')
  | misnamed {errors errors' : List SemanticError}
      (gists : errors.map (·.diagnostic.gist) = errors'.map (·.diagnostic.gist)) :
      Alike (.misnamed errors) (.misnamed errors')

theorem Token.withoutPositions_eq_of_same {ts ts' : List Token}
    (h : ts.map (fun t => (t.kind, t.text)) = ts'.map fun t => (t.kind, t.text)) :
    withoutPositions ts = withoutPositions ts' := by
  have hplaced := congrArg (List.map fun p : Kind × String => (⟨p.1, p.2, ⟨0, 0⟩⟩ : Token)) h
  rwa [List.map_map, List.map_map] at hplaced

/-- Errors that agree without positions say the same. -/
theorem map_gist_eq {α : Type} {errors errors' : List α} {clear : α → α} {tell : α → Diagnostic}
    (hclear : ∀ e, (tell (clear e)).gist = (tell e).gist)
    (h : errors.map clear = errors'.map clear) :
    errors.map (fun e => (tell e).gist) = errors'.map fun e => (tell e).gist := by
  have hgist := congrArg (List.map fun e => (tell e).gist) h
  simpa only [List.map_map, Function.comp_def, hclear] using hgist

theorem isEmpty_eq_of_map_eq {α β : Type} {f : α → β} {xs ys : List α} (h : xs.map f = ys.map f) :
    xs.isEmpty = ys.isEmpty := by
  rw [← List.isEmpty_map, h, List.isEmpty_map]

/-- **Layout never changes the result.** Two texts whose tokens have the same kinds and texts in
    the same order have outcomes that differ in positions only. -/
theorem Outcome.alike_compile {source source' : String}
    (h : (Token.scan source).map (fun t => (t.kind, t.text)) =
      (Token.scan source').map fun t => (t.kind, t.text)) :
    (compile source).Alike (compile source') := by
  have htokens := Token.withoutPositions_eq_of_same h
  have hparse : (Program.read (Token.scan source)).withoutPositions =
      (Program.read (Token.scan source')).withoutPositions := by
    rw [← Program.read_withoutPositions, htokens, Program.read_withoutPositions]
  unfold compile
  simp only
  generalize Program.read (Token.scan source) = parse at hparse ⊢
  generalize Program.read (Token.scan source') = parse' at hparse ⊢
  obtain ⟨hprogram, hfaults, -⟩ := Parse.mk.inj hparse
  have hanalysis : parse.program.analyze.withoutLines = parse'.program.analyze.withoutLines := by
    rw [← Program.analyze_withoutLines, hprogram, Program.analyze_withoutLines]
  obtain ⟨htable, herrors⟩ := Analysis.mk.inj hanalysis
  have hcode : parse.program.lower = parse'.program.lower := by
    rw [← Program.lower_withoutLines, hprogram, Program.lower_withoutLines]
  have hsyntax : parse.errors.map SyntaxError.withoutPosition =
      parse'.errors.map SyntaxError.withoutPosition := by
    have herror := congrArg (List.map Fault.error) hfaults
    simpa only [Parse.errors, List.map_map, Function.comp_def, Fault.withoutPosition] using herror
  simp only [isEmpty_eq_of_map_eq hfaults, isEmpty_eq_of_map_eq herrors]
  split
  · split
    · exact .compiled htokens hprogram htable hcode
    · exact .misnamed (map_gist_eq SemanticError.gist_withoutLine herrors)
  · exact .malformed (map_gist_eq SyntaxError.gist_withoutPosition hsyntax)

/-- A function on one line. -/
def oneLine : String := "int f(int a)\x7breturn a+x;\x7d"

/-- The function of `oneLine`, spread over three lines. -/
def threeLines : String := "int f ( int a )\n\t\x7b return\n a + x ; \x7d"

theorem Outcome.alike_compile_threeLines :
    (Token.scan oneLine).map (fun t => (t.kind, t.text)) =
        (Token.scan threeLines).map (fun t => (t.kind, t.text)) ∧
      (compile oneLine).Alike (compile threeLines) := by
  have h : (Token.scan oneLine).map (fun t => (t.kind, t.text)) =
      (Token.scan threeLines).map fun t => (t.kind, t.text) := by
    cbv
  exact ⟨h, Outcome.alike_compile h⟩

end MiniC
