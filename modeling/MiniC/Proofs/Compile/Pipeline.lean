import Mathlib
import MiniC.CommandLine.Response
import MiniC.Proofs.Code.Section
import MiniC.Proofs.Token.Layout

/-!
# All or nothing

A scanner that tries the rules of a table one after another fails at a character that no rule takes,
and then there is nothing to compile. Here compiling and answering are taken with that failure in
view (`compileBy`, `Options.answer`). The table of the language is closed, so they never fail, and
come to what runs without the table. A command sets up its log before anything else, and what it
answers if that fails is taken in as well (`Options.respondAfter`).

Compiling then gives everything, or the errors of exactly one stage, and a command that has set up
its log and reads its input answers with exit code 0 and nothing but the report, or with exit code 1
and nothing but the errors. Main statement: `compile_all_or_nothing`.
-/

namespace MiniC

/-! ## 1. The stages -/

/-- What the stages after scanning come to. -/
def Outcome.ofTokens (tokens : List Token) : Outcome :=
  let parse := Program.read tokens
  if parse.faults.isEmpty then
    let analysis := parse.program.analyze
    if analysis.errors.isEmpty then
      .compiled ⟨tokens, parse.program, analysis.table, parse.program.lower⟩
    else .misnamed analysis.errors
  else .malformed parse.errors

/-- The outcome of compiling a source text with the lexical rules of a table, if it can be
    scanned. -/
def compileBy (table : List (Token.Kind × Token.Rule)) (source : String) :
    Except Diagnostic Outcome :=
  (Token.scanBy table source).map Outcome.ofTokens

/-- **Compiling always has an outcome.** -/
theorem compileBy_closedRules (source : String) :
    compileBy Token.closedRules source = .ok (compile source) := by
  rw [compileBy, Token.scanBy_closedRules]
  rfl

/-- **The stages in the order in which their errors count**: nothing is wrong, or the program cannot
    be read, or it can but uses names wrongly. -/
theorem compile_cases (source : String) :
    ((Program.read (Token.scan source)).errors = [] ∧
      (Program.read (Token.scan source)).program.analyze.errors = [] ∧
      compile source = .compiled (.ofSource source)) ∨
    ((Program.read (Token.scan source)).errors ≠ [] ∧
      compile source = .malformed (Program.read (Token.scan source)).errors) ∨
    ((Program.read (Token.scan source)).errors = [] ∧
      (Program.read (Token.scan source)).program.analyze.errors ≠ [] ∧
      compile source = .misnamed (Program.read (Token.scan source)).program.analyze.errors) := by
  by_cases hgrammar : (Program.read (Token.scan source)).faults = []
  · have hnone : (Program.read (Token.scan source)).errors = [] := List.map_eq_nil_iff.mpr hgrammar
    by_cases hsemantic : (Program.read (Token.scan source)).program.analyze.errors = []
    · exact .inl ⟨hnone, hsemantic, compile_eq_compiled_iff.mpr ⟨hgrammar, hsemantic, rfl⟩⟩
    · refine .inr (.inr ⟨hnone, hsemantic, ?_⟩)
      unfold compile
      simp only [if_pos (List.isEmpty_iff.mpr hgrammar), if_neg (mt List.isEmpty_iff.mp hsemantic)]
  · refine .inr (.inl ⟨mt List.map_eq_nil_iff.mp hgrammar, ?_⟩)
    unfold compile
    simp only [if_neg (mt List.isEmpty_iff.mp hgrammar)]

theorem Artifacts.eq_ofSource_iff {source : String} {artifacts : Artifacts} :
    artifacts = .ofSource source ↔
      artifacts.tokens = Token.scan source ∧
        artifacts.program = (Program.read artifacts.tokens).program ∧
        artifacts.table = artifacts.program.analyze.table ∧
        artifacts.code = artifacts.program.lower := by
  constructor
  · rintro rfl
    exact ⟨rfl, rfl, rfl, rfl⟩
  · obtain ⟨tokens, program, table, code⟩ := artifacts
    dsimp only
    rintro ⟨rfl, rfl, rfl, rfl⟩
    rfl

/-! ## 2. The log of an ordinary run -/

namespace Log

/-- The records are for those who ask for more than warnings. -/
def Quiet (records : List Record) : Prop :=
  ∀ record ∈ records, Threshold.keeps (some .warn) record.level = false

theorem quiet_append {records later : List Record} (h : Quiet records) (h' : Quiet later) :
    Quiet (records ++ later) :=
  List.forall_mem_append.mpr ⟨h, h'⟩

theorem quiet_singleton {record : Record}
    (h : Threshold.keeps (some .warn) record.level = false) : Quiet [record] :=
  List.forall_mem_singleton.mpr h

theorem Quiet.filter_eq {records : List Record} (h : Quiet records) :
    Log.filter (some .warn) records = [] :=
  List.filter_eq_nil_iff.mpr fun record hmem => by simp [h record hmem]

end Log

open Log

theorem quiet_scanLog (source : String) (tokens : List Token) :
    Quiet (Token.scanLog source tokens) :=
  List.forall_mem_cons.mpr ⟨rfl, quiet_singleton rfl⟩

theorem Fault.quiet_log (fault : Fault) : Quiet fault.log := by
  rw [Fault.log]
  cases fault.sequel with
  | resumed skipped => exact List.forall_mem_cons.mpr ⟨rfl, quiet_singleton rfl⟩
  | aborted => exact quiet_singleton rfl

theorem Parse.quiet_log (parse : Parse) : Quiet parse.log := by
  refine quiet_append (fun record hmem => ?_) (quiet_singleton rfl)
  obtain ⟨fault, -, hmem⟩ := List.mem_flatMap.mp hmem
  exact fault.quiet_log record hmem

theorem Scope.quiet_enteringLog (scopes : List Scope) (i : Nat) :
    Quiet (Scope.enteringLog i scopes) := by
  induction scopes generalizing i with
  | nil => exact List.forall_mem_nil _
  | cons scope scopes ih => exact List.forall_mem_cons.mpr ⟨rfl, ih (i + 1)⟩

theorem Analysis.quiet_log (analysis : Analysis) : Quiet analysis.log :=
  quiet_append (Scope.quiet_enteringLog _ 1) (List.forall_mem_cons.mpr ⟨rfl, quiet_singleton rfl⟩)

theorem Code.quiet_log (code : Code) : Quiet code.log :=
  quiet_append (List.forall_mem_map.mpr fun _ _ => rfl) (quiet_singleton rfl)

/-- **Compiling warns of nothing**: what it has to say of a program goes to the errors. -/
theorem quiet_compileLog (source : String) : Quiet (compileLog source) := by
  refine quiet_append (quiet_append (quiet_scanLog _ _) (Parse.quiet_log _)) ?_
  split
  · refine quiet_append (Analysis.quiet_log _) ?_
    split
    · exact Code.quiet_log _
    · exact List.forall_mem_nil _
  · exact List.forall_mem_nil _

/-! ## 3. The answer to a command -/

namespace CommandLine

namespace Options

/-- The answer for what compiling came to, after the lines of the log. A text that cannot be scanned
    is answered like one that cannot be read. -/
def answer (options : Options) (log : List String) : Except Diagnostic Outcome → Response
  | .error e => ⟨2, "", unlines [e.text]⟩
  | .ok (.compiled artifacts) => ⟨0, unlines (log ++ options.report artifacts), ""⟩
  | .ok outcome => ⟨1, unlines log, unlines (outcome.diagnostics.map Diagnostic.text)⟩

/-- The lines of the log, as far as the options ask for it. -/
def logLines (options : Options) (source : String) : List String :=
  (Log.filter options.threshold (compileLog source)).map Log.Record.line

/-- Without `-v` nothing is logged. -/
theorem logLines_eq_nil {options : Options} (h : options.verbosity = 0) (source : String) :
    options.logLines source = [] := by
  have hthreshold : options.threshold = some .warn := by simp only [threshold, h]
  rw [logLines, hthreshold, (quiet_compileLog _).filter_eq, List.map_nil]

theorem compile_eq_answer (options : Options) (source : String) :
    options.compile source =
      options.answer (options.logLines (Source.stripComments source))
        (compileBy Token.closedRules (Source.stripComments source)) := by
  rw [Options.compile, compileBy_closedRules]
  cases MiniC.compile (Source.stripComments source) with
  | compiled artifacts => rfl
  | malformed errors => rfl
  | misnamed errors => rfl

/-- The answer for an input that is a text. -/
theorem respond_text (options : Options) (text : String) :
    options.respond (.ok text.toUTF8) = options.compile (Text.trimEnd text) := by
  have htext : String.fromUTF8? text.toUTF8 = some text := by
    rw [String.fromUTF8?]
    exact dif_pos text.isValidUTF8
  simp only [Options.respond, Except.bind, decode, htext]

/-- The answer for an input when the log may fail to be set up. That is told before anything else,
    and then nothing is logged. -/
def respondAfter (options : Options) (setup : Except String Unit)
    (content : Except ReadFailure ByteArray) : Response :=
  match setup with
  | .ok _ => options.respond content
  | .error reason =>
    let response := { options with verbosity := 0 }.respond content
    { response with errors := unlines ["failed to install logger: " ++ reason] ++ response.errors }

end Options

/-- The switches that say what to show. -/
inductive Flag where
  | tokens
  | tree
  | scopes
  | noCode
  deriving DecidableEq, Repr

/-- The switch as an argument. -/
def Flag.text : Flag → String
  | .tokens => "--tokens"
  | .tree => "--ast"
  | .scopes => "--scopes"
  | .noCode => "--no-tac"

namespace Seen

/-- The arguments seen when the flags have been seen as well. -/
def withFlags (seen : Seen) (flags : List Flag) : Seen :=
  { seen with
    tokens := seen.tokens || .tokens ∈ flags
    tree := seen.tree || .tree ∈ flags
    scopes := seen.scopes || .scopes ∈ flags
    noCode := seen.noCode || .noCode ∈ flags }

/-- Whether the flag has been seen. -/
def has (seen : Seen) : Flag → Bool
  | .tokens => seen.tokens
  | .tree => seen.tree
  | .scopes => seen.scopes
  | .noCode => seen.noCode

theorem has_withFlags (seen : Seen) (flags : List Flag) (flag : Flag) :
    (seen.withFlags flags).has flag = (seen.has flag || decide (flag ∈ flags)) := by
  cases flag <;> rfl

theorem withFlags_withFlags (seen : Seen) (flag : Flag) (flags : List Flag) :
    (seen.withFlags [flag]).withFlags flags = seen.withFlags (flag :: flags) := by
  simp [withFlags, Bool.or_assoc]

/-- A flag that was not seen yet is noted. -/
theorem read_flag {seen : Seen} {flag : Flag} (h : seen.has flag = false) (args : List String) :
    seen.read (flag.text :: args) = (seen.withFlags [flag]).read args := by
  cases flag <;> simp only [has] at h
  -- each flag has a branch of its own among the long options, guarded against a repetition
  all_goals simp [read, Flag.text, long, withFlags, h]

/-- Flags are noted in any order, each once. -/
theorem read_flags {flags : List Flag} (hnodup : flags.Nodup) (seen : Seen)
    (h : ∀ flag ∈ flags, seen.has flag = false) (args : List String) :
    seen.read (flags.map Flag.text ++ args) = (seen.withFlags flags).read args := by
  induction flags generalizing seen with
  | nil => simp [withFlags]
  | cons flag flags ih =>
    obtain ⟨hnew, hnodup⟩ := List.nodup_cons.mp hnodup
    obtain ⟨hflag, h⟩ := List.forall_mem_cons.mp h
    rw [List.map_cons, List.cons_append, read_flag hflag, ih hnodup, withFlags_withFlags]
    intro later hmem
    rw [has_withFlags, h later hmem, Bool.false_or, decide_eq_false_iff_not, List.mem_singleton]
    exact ne_of_mem_of_not_mem hmem hnew

end Seen

/-- What a run with these flags is to read and to show. -/
def Options.ofFlags (input : Input) (flags : List Flag) : Options where
  input := input
  tokens := .tokens ∈ flags
  tree := .tree ∈ flags
  scopes := .scopes ∈ flags
  code := .noCode ∉ flags
  verbosity := 0

/-- The input that a path names. -/
def Input.ofPath (path : String) : Input := if path = "-" then .standard else .file path

/-- A path is no option: it does not begin with a dash, or it is a lone one. -/
def IsPath (arg : String) : Prop := arg = "-" ∨ arg.toList.head? ≠ some '-'

theorem Seen.read_path {seen : Seen} (h : seen.path = none) {path : String} (hpath : IsPath path) :
    seen.read [path] = .ok { seen with path := some path } := by
  rcases hpath with rfl | hhead
  · simp [read, positional, h]
  · have hdashes : path ≠ "--" := by
      rintro rfl
      exact hhead rfl
    rw [read, if_neg hdashes]
    cases hlist : path.toList with
    | nil => simp [read, positional, h]
    | cons c cs =>
      rw [hlist, List.head?_cons] at hhead
      have hc : c ≠ '-' := fun heq => hhead (congrArg some heq)
      simp [read, positional, h, hc]

/-- **Every combination of the flags is understood**, in any order, with or without a path after
    them. -/
theorem ofArgs_flags {flags : List Flag} (hnodup : flags.Nodup) :
    Request.ofArgs (flags.map Flag.text) = .run (.ofFlags .standard flags) ∧
      ∀ path, IsPath path →
        Request.ofArgs (flags.map Flag.text ++ [path]) = .run (.ofFlags (.ofPath path) flags) := by
  have hread := Seen.read_flags hnodup .nothing fun flag _ => by cases flag <;> rfl
  constructor
  · rw [Request.ofArgs, ← List.append_nil (flags.map Flag.text), hread]
    simp [Seen.read, Seen.withFlags, Seen.nothing, Seen.options, Options.ofFlags]
  · intro path hpath
    rw [Request.ofArgs, hread, Seen.read_path rfl hpath]
    simp [Seen.withFlags, Seen.nothing, Seen.options, Options.ofFlags, Input.ofPath]

/-- **The answer for a text is everything, or nothing but errors**, after the lines of the log. -/
theorem Options.answer_cases (options : Options) (log : List String) (source : String) :
    (∃ artifacts, MiniC.compile source = .compiled artifacts ∧
      options.answer log (compileBy Token.closedRules source) =
        ⟨0, unlines (log ++ options.report artifacts), ""⟩) ∨
    ((MiniC.compile source).diagnostics ≠ [] ∧
      options.answer log (compileBy Token.closedRules source) =
        ⟨1, unlines log, unlines ((MiniC.compile source).diagnostics.map Diagnostic.text)⟩) := by
  rw [compileBy_closedRules]
  rcases compile_cases source with ⟨-, -, hcompile⟩ | ⟨hgrammar, hcompile⟩ |
    ⟨-, hsemantic, hcompile⟩
  · rw [hcompile]
    exact .inl ⟨_, rfl, rfl⟩
  · rw [hcompile]
    exact .inr ⟨mt List.map_eq_nil_iff.mp hgrammar, rfl⟩
  · rw [hcompile]
    exact .inr ⟨mt List.map_eq_nil_iff.mp hsemantic, rfl⟩

/-- The answer to arguments that ask for a run. -/
theorem respond_of_run {args : List String} {options : Options}
    (hargs : Request.ofArgs args = .run options) (read : Input → Except ReadFailure ByteArray) :
    respond args read = options.respond (read options.input) := by
  simp only [respond, hargs]

end CommandLine

/-! ## 4. The pipeline -/

open CommandLine

/-- **The pipeline is all or nothing.** Compiling always has an outcome: the program is compiled
    exactly when there is no syntax error and no semantic error, and then gives what each stage gives;
    otherwise it halts with the syntax errors, or with the semantic errors when there are no others.

    A command that has set up its log and reads its input as text exits with 0 and writes the report
    and no errors, or it exits with 1 and writes no report and the errors, a line for each; with
    either goes the log, which is empty without `-v`. This holds for any options, and so for any
    arguments that are understood as such. -/
theorem compile_all_or_nothing :
    (∀ source,
      compileBy Token.closedRules source = .ok (compile source) ∧
      (∀ artifacts, compile source = .compiled artifacts ↔
        (Program.read (Token.scan source)).errors = [] ∧
        (Program.read (Token.scan source)).program.analyze.errors = [] ∧
        artifacts.tokens = Token.scan source ∧
        artifacts.program = (Program.read artifacts.tokens).program ∧
        artifacts.table = artifacts.program.analyze.table ∧
        artifacts.code = artifacts.program.lower) ∧
      ((compile source).isCompiled = false →
        (Program.read (Token.scan source)).errors ≠ [] ∧
          compile source = .malformed (Program.read (Token.scan source)).errors ∨
        (Program.read (Token.scan source)).errors = [] ∧
          (Program.read (Token.scan source)).program.analyze.errors ≠ [] ∧
          compile source = .misnamed (Program.read (Token.scan source)).program.analyze.errors)) ∧
    (∀ (options : Options) setup text source log, setup = .ok () →
      source = Source.stripComments (Text.trimEnd text) → log = options.logLines source →
      options.respondAfter setup (.ok text.toUTF8) =
        options.answer log (compileBy Token.closedRules source) ∧
      ((∃ artifacts, compile source = .compiled artifacts ∧
          options.respondAfter setup (.ok text.toUTF8) =
            ⟨0, unlines (log ++ options.report artifacts), ""⟩) ∨
        (compile source).diagnostics ≠ [] ∧
          options.respondAfter setup (.ok text.toUTF8) =
            ⟨1, unlines log, unlines ((compile source).diagnostics.map Diagnostic.text)⟩) ∧
      (options.verbosity = 0 → log = [])) ∧
    (∀ flags : List Flag, flags.Nodup →
      Request.ofArgs (flags.map Flag.text) = .run (.ofFlags .standard flags) ∧
      ∀ path, IsPath path →
        Request.ofArgs (flags.map Flag.text ++ [path]) = .run (.ofFlags (.ofPath path) flags)) ∧
    (∀ args options read text source, Request.ofArgs args = .run options →
      options.verbosity = 0 → read options.input = .ok text.toUTF8 →
      source = Source.stripComments (Text.trimEnd text) →
      respond args read = options.answer [] (compileBy Token.closedRules source) ∧
      ((∃ artifacts, compile source = .compiled artifacts ∧
          respond args read = ⟨0, unlines (options.report artifacts), ""⟩) ∨
        (compile source).diagnostics ≠ [] ∧
          respond args read =
            ⟨1, "", unlines ((compile source).diagnostics.map Diagnostic.text)⟩)) := by
  refine ⟨fun source => ⟨compileBy_closedRules source, fun artifacts => ?_, fun hhalted => ?_⟩,
    ?_, fun flags hnodup => ofArgs_flags hnodup, ?_⟩
  · rw [compile_eq_compiled_iff, Artifacts.eq_ofSource_iff, Parse.errors, List.map_eq_nil_iff]
  · rcases compile_cases source with ⟨-, -, hcompile⟩ | hgrammar | hsemantic
    · rw [hcompile] at hhalted
      cases hhalted
    · exact .inl hgrammar
    · exact .inr hsemantic
  · rintro options setup text source log rfl rfl rfl
    have hanswer := (options.respond_text text).trans (options.compile_eq_answer (Text.trimEnd text))
    rw [Options.respondAfter, hanswer]
    exact ⟨rfl, options.answer_cases _ _, fun h => Options.logLines_eq_nil h _⟩
  · rintro args options read text source hargs hverbosity hread rfl
    have hanswer := (options.respond_text text).trans (options.compile_eq_answer (Text.trimEnd text))
    rw [Options.logLines_eq_nil hverbosity] at hanswer
    rw [respond_of_run hargs, hread, hanswer]
    exact ⟨rfl, options.answer_cases [] _⟩

/-- A program that reads well and uses a name it does not declare. -/
def undeclaredUse : String := "int f() \x7b return x; \x7d // no x\n"

/-- The same with the name declared. -/
def declaredUse : String := "int f(int x) \x7b return x; \x7d // x\n"

theorem compile_all_or_nothing_declaredOrNot :
    Request.ofArgs ["--ast", "--no-tac", "f.c"] = .run (.ofFlags (.file "f.c") [.tree, .noCode]) ∧
      respond ["--ast", "--no-tac", "f.c"] (fun _ => .ok undeclaredUse.toUTF8) =
        ⟨1, "", "Semantic error at line 1: Undeclared variable 'x'\n"⟩ ∧
      (Options.ofFlags .standard []).respondAfter (.ok ()) (.ok declaredUse.toUTF8) =
        ⟨0, "func begin f\nreturn x\nfunc end f\n", ""⟩ := by
  obtain ⟨hcompiles, hanswers, hflags, hresponds⟩ := compile_all_or_nothing
  have hargs : Request.ofArgs ["--ast", "--no-tac", "f.c"] =
      .run (.ofFlags (.file "f.c") [.tree, .noCode]) :=
    (hflags [.tree, .noCode] (by decide)).2 "f.c" (.inr (by decide))
  refine ⟨hargs, ?_, ?_⟩
  · have hsource : "int f() \x7b return x; \x7d " =
        Source.stripComments (Text.trimEnd undeclaredUse) := by cbv
    have hcompile : compile "int f() \x7b return x; \x7d " =
        .misnamed [⟨.undeclared, ⟨"x", 1⟩⟩] := by cbv
    obtain ⟨-, ⟨artifacts, hcompiled, -⟩ | ⟨-, hresponse⟩⟩ :=
      hresponds _ _ (fun _ => .ok undeclaredUse.toUTF8) _ _ hargs rfl rfl hsource
    · cases hcompile.symm.trans hcompiled
    · rw [hresponse, hcompile]
      decide
  · have hsource : "int f(int x) \x7b return x; \x7d " =
        Source.stripComments (Text.trimEnd declaredUse) := by cbv
    have hnone : (compile "int f(int x) \x7b return x; \x7d ").diagnostics = [] := by cbv
    obtain ⟨-, ⟨artifacts, hcompiled, hresponse⟩ | ⟨hsome, -⟩, hlog⟩ :=
      hanswers (.ofFlags .standard []) (.ok ()) _ _ _ rfl hsource rfl
    · obtain ⟨-, -, htokens, hprogram, -, hcode⟩ :=
        ((hcompiles "int f(int x) \x7b return x; \x7d ").2.1 artifacts).mp hcompiled
      have hlines : artifacts.code.map Instruction.text =
          ["func begin f", "return x", "func end f"] := by
        rw [hcode, hprogram, htokens]
        cbv
      have hreport : (Options.ofFlags .standard []).report artifacts =
          artifacts.code.map Instruction.text := rfl
      rw [hresponse, hlog rfl, hreport, hlines]
      decide
    · exact absurd hnone hsome

end MiniC
