import MiniC.CommandLine.Options
import MiniC.CommandLine.ReadFailure
import MiniC.Compile.Log
import MiniC.Scope.Listing
import MiniC.Source.Comment
import MiniC.Text.Blank
import MiniC.Tree.Dump

/-!
# The answer to a command

A command answers with an exit code and with what it writes to the standard output and the
standard error. It exits with 0 when the program was compiled, with 1 when the program has errors,
and with 2 when it could not be read at all or the arguments do not fit.
-/

namespace MiniC.CommandLine

/-- An exit code, and what is written to the standard output and the standard error. -/
structure Response where
  exitCode : Nat
  output : String
  errors : String
  deriving DecidableEq, Repr

/-- Lines of text, each closed by a newline. -/
def unlines (lines : List String) : String := String.join (lines.map (· ++ "\n"))

/-- The source text in an input: the bytes in UTF-8, without the blanks at the end. -/
def decode (bytes : ByteArray) : Except ReadFailure String :=
  match String.fromUTF8? bytes with
  | some text => .ok (Text.trimEnd text)
  | none => .error .notText

namespace Options

/-- The lines that show what a compiled program came to, as far as the options ask for it. -/
def report (options : Options) (artifacts : Artifacts) : List String :=
  (if options.tokens then artifacts.tokens.map Token.row else [])
    ++ (if options.tree then [artifacts.program.dump.pretty 0] else [])
    ++ (if options.scopes then artifacts.table.listing else [])
    ++ (if options.code then artifacts.code.map Instruction.text else [])

/-- The answer for a source text. -/
def compile (options : Options) (source : String) : Response :=
  let source := Source.stripComments source
  let log := (Log.filter options.threshold (compileLog source)).map Log.Record.line
  match MiniC.compile source with
  | .compiled artifacts => ⟨0, unlines (log ++ options.report artifacts), ""⟩
  | outcome => ⟨1, unlines log, unlines (outcome.diagnostics.map Diagnostic.text)⟩

/-- The answer for an input, as it was read. -/
def respond (options : Options) (content : Except ReadFailure ByteArray) : Response :=
  match content.bind decode with
  | .ok source => options.compile source
  | .error failure => ⟨2, "", "failed to read input: " ++ failure.message ++ "\n"⟩

end Options

/-- The name and version of the program. -/
def versionText : String := "tacc 0.1.0\n"

/-- The summary of the arguments. -/
def helpText : String := unlines
  ["Lower a small C-like language to three-address code",
    "",
    "Usage: tacc [OPTIONS] [INPUT]",
    "",
    "Arguments:",
    "  [INPUT]  Source file, or `-` to read stdin [default: -]",
    "",
    "Options:",
    "      --tokens      Print the token table",
    "      --ast         Print the syntax tree",
    "      --scopes      Print every scope with its symbols",
    "      --no-tac      Do not print the generated three-address code",
    "  -v, --verbose...  Raise log verbosity (-v info, -vv debug, -vvv trace)",
    "  -h, --help        Print help",
    "  -V, --version     Print version"]

/-- **The answer to a list of arguments**, where `read` gives the bytes of an input. -/
def respond (args : List String) (read : Input → Except ReadFailure ByteArray) : Response :=
  match Request.ofArgs args with
  | .run options => options.respond (read options.input)
  | .showVersion => ⟨0, versionText, ""⟩
  | .showHelp => ⟨0, helpText, ""⟩
  | .misuse => ⟨2, "", "usage error"⟩

end MiniC.CommandLine
