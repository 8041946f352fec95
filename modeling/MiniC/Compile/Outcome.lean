import MiniC.Code.Lower
import MiniC.Diagnostic
import MiniC.Grammar.Program
import MiniC.Token.Scan

/-!
# Compiling

A source text is scanned, read, analysed and lowered. Each stage takes the whole result of the one
before it and runs only when that one found no error, so compiling gives either everything or the
errors of a single stage.
-/

namespace MiniC

/-- Everything that compiling a program without errors gives. -/
structure Artifacts where
  tokens : List Token
  program : Program
  table : SymbolTable
  code : Code
  deriving Repr

/-- What compiling comes to. -/
inductive Outcome where
  | compiled (artifacts : Artifacts)
  /-- The program could not be read. -/
  | malformed (errors : List SyntaxError)
  /-- The program could be read but uses names wrongly. -/
  | misnamed (errors : List SemanticError)
  deriving Repr

namespace Outcome

/-- The errors in words, in order. -/
def diagnostics : Outcome → List Diagnostic
  | .compiled _ => []
  | .malformed errors => errors.map SyntaxError.diagnostic
  | .misnamed errors => errors.map SemanticError.diagnostic

/-- Whether the program was compiled. -/
def isCompiled : Outcome → Bool
  | .compiled _ => true
  | .malformed _ => false
  | .misnamed _ => false

end Outcome

/-- **The outcome of compiling a source text.** -/
def compile (source : String) : Outcome :=
  let tokens := Token.scan source
  let parse := Program.read tokens
  if parse.faults.isEmpty then
    let analysis := parse.program.analyze
    if analysis.errors.isEmpty then
      .compiled ⟨tokens, parse.program, analysis.table, parse.program.lower⟩
    else .misnamed analysis.errors
  else .malformed parse.errors

end MiniC
