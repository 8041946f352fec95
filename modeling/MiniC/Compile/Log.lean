import MiniC.Compile.Outcome
import MiniC.Log

/-!
# What compiling leaves in the log

Each stage leaves records of its own, and the pipeline leaves one after each stage that ran. All of
them follow from what the stages give, so they are computed from it.
-/

namespace MiniC

open Log

/-- A record of the pipeline. -/
def pipelineRecord (message : String) : Record := ⟨.info, .pipeline, message⟩

/-- The records of scanning `source` into `tokens`. -/
def Token.scanLog (source : String) (tokens : List Token) : List Record :=
  [⟨.debug, .scanning, "lexed " ++ toString tokens.length ++ " tokens over "
      ++ toString (Token.lineCount source) ++ " lines"⟩,
    pipelineRecord ("tokenized " ++ toString tokens.length ++ " tokens")]

/-- The records of a fault: the error, and the recovery from it. -/
def Fault.log (fault : Fault) : List Record :=
  let error := fault.error.diagnostic.text
  match fault.sequel with
  | .resumed skipped =>
    [⟨.debug, .reading, "statement failed: " ++ error⟩,
      ⟨.debug, .reading, "recovered after skipping " ++ toString skipped ++ " tokens"⟩]
  | .aborted => [⟨.debug, .reading, "aborting parse at top level: " ++ error⟩]

/-- The records of reading a program. -/
def Parse.log (parse : Parse) : List Record :=
  let outcome :=
    if parse.faults.isEmpty then "parsed " ++ toString parse.program.length ++ " functions"
    else "halting after parse with " ++ toString parse.faults.length ++ " syntax errors"
  parse.faults.flatMap Fault.log ++ [pipelineRecord outcome]

/-- The records of entering scopes, the first of which has number `i`. -/
def Scope.enteringLog (i : Nat) : List Scope → List Record
  | [] => []
  | scope :: scopes =>
    ⟨.debug, .analysis, "entered scope #" ++ toString i ++ " '" ++ scope.name ++ "'"⟩
      :: Scope.enteringLog (i + 1) scopes

/-- The records of an analysis. The global scope is there from the start and is not entered. -/
def Analysis.log (analysis : Analysis) : List Record :=
  let scopes := toString analysis.table.scopes.size
  let errors := toString analysis.errors.length
  let outcome :=
    if analysis.errors.isEmpty then "analysis created " ++ scopes ++ " scopes"
    else "halting after analysis with " ++ errors ++ " semantic errors"
  Scope.enteringLog 1 (analysis.table.scopes.toList.drop 1)
    ++ [⟨.debug, .analysis,
        "analysis finished with " ++ scopes ++ " scopes and " ++ errors ++ " errors"⟩,
      pipelineRecord outcome]

/-- The records of lowering to `code`. -/
def Code.log (code : Code) : List Record :=
  code.map (fun instruction => ⟨.trace, .lowering, "emit " ++ instruction.text⟩)
    ++ [pipelineRecord ("generated " ++ toString code.length ++ " instructions")]

/-- **The records of compiling a source text, in order.** -/
def compileLog (source : String) : List Record :=
  let tokens := Token.scan source
  let parse := Program.read tokens
  let later :=
    if parse.faults.isEmpty then
      let analysis := parse.program.analyze
      analysis.log ++ if analysis.errors.isEmpty then Code.log parse.program.lower else []
    else []
  Token.scanLog source tokens ++ parse.log ++ later

end MiniC
