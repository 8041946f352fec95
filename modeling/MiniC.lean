import MiniC.CommandLine.Files
import MiniC.CommandLine.Options
import MiniC.CommandLine.Response
import MiniC.Main
import MiniC.Proofs.Code.Freshness
import MiniC.Proofs.Code.Section
import MiniC.Proofs.Code.Shadowing
import MiniC.Proofs.Code.Supply
import MiniC.Proofs.Execution.Direct
import MiniC.Proofs.Execution.Follows
import MiniC.Proofs.Execution.Machine
import MiniC.Proofs.Execution.Meaning
import MiniC.Proofs.Execution.Mirror
import MiniC.Proofs.Execution.Simulation
import MiniC.Proofs.Grammar.Completeness
import MiniC.Proofs.Grammar.Soundness
import MiniC.Proofs.Grammar.Spelling
import MiniC.Proofs.Grammar.Words
import MiniC.Proofs.Grammar.Yield
import MiniC.Proofs.Scope.Frames
import MiniC.Proofs.Scope.Uses
import MiniC.Proofs.Scope.Conformance
import MiniC.Proofs.Token.Layout
import MiniC.Proofs.Token.Spacing
import MiniC.Proofs.Grammar.Rendering
import MiniC.Proofs.Grammar.RoundTrip
import MiniC.Proofs.Grammar.Salvage
import MiniC.Proofs.Code.Linkage
import MiniC.Proofs.Code.Jumps
import MiniC.Proofs.Compile.Placement
import MiniC.Proofs.Code.Listing
import MiniC.Proofs.Source.Blanking
import MiniC.Proofs.Scope.Runs
import MiniC.Proofs.Grammar.Resumption
import MiniC.Proofs.Grammar.Extension
import MiniC.Proofs.Compile.Pipeline
import MiniC.Proofs.Scope.Isolation
import MiniC.Proofs.Token.Munch
import MiniC.Proofs.Grammar.Blame
import MiniC.Proofs.Grammar.Calls
import MiniC.Proofs.Grammar.Rounds
import MiniC.Proofs.Grammar.Progress
import MiniC.Proofs.Scope.Outline
import MiniC.Proofs.Source.Openers
import MiniC.Proofs.Code.Postorder
import MiniC.Proofs.Code.Arguments
import MiniC.Proofs.Token.Respacing
import MiniC.Proofs.Scope.Places
import MiniC.Proofs.Scope.Builtin
