import MiniC.Text.Padding

/-!
# The log

While it works, the compiler leaves records of what it does. A record has a level of severity,
the part of the compiler that left it, and a message. A threshold keeps the records of its own
level and of the more severe ones.
-/

namespace MiniC.Log

/-! ## 1. Levels and thresholds -/

/-- The levels, the most severe first. -/
inductive Level where
  | error
  | warn
  | info
  | debug
  | trace
  deriving DecidableEq, Repr

namespace Level

/-- Every level, the most severe first. -/
def all : List Level := [.error, .warn, .info, .debug, .trace]

/-- How many levels are more severe. -/
def rank : Level → Nat
  | .error => 0
  | .warn => 1
  | .info => 2
  | .debug => 3
  | .trace => 4

/-- The name of the level in the log. -/
def name : Level → String
  | .error => "ERROR"
  | .warn => "WARN"
  | .info => "INFO"
  | .debug => "DEBUG"
  | .trace => "TRACE"

end Level

/-- The least severe level that is kept; none when nothing is. -/
abbrev Threshold := Option Level

namespace Threshold

/-- Whether records of that level are kept. -/
def keeps (threshold : Threshold) (level : Level) : Bool :=
  threshold.any fun limit => level.rank ≤ limit.rank

/-- The threshold of that name, in capitals or not. -/
def ofName? (name : String) : Option Threshold :=
  let upper := name.toUpper
  if upper = "OFF" then some none
  else (Level.all.find? (·.name = upper)).map some

end Threshold

/-! ## 2. Records -/

/-- The parts of the compiler that leave records. -/
inductive Origin where
  | pipeline
  | scanning
  | reading
  | analysis
  | lowering
  deriving DecidableEq, Repr

/-- The name of the part in the log. -/
def Origin.path : Origin → String
  | .pipeline => "tacc"
  | .scanning => "tacc::lexer::lexer"
  | .reading => "tacc::parser::parser"
  | .analysis => "tacc::analyzer::semantic_visitor"
  | .lowering => "tacc::codegen::codegen"

/-- An entry of the log. -/
structure Record where
  level : Level
  origin : Origin
  message : String
  deriving DecidableEq, Repr

/-- The record as printed. -/
def Record.line (record : Record) : String :=
  Text.pad .left 5 record.level.name ++ " [" ++ record.origin.path ++ "] " ++ record.message

/-- The records that a threshold keeps, in order. -/
def filter (threshold : Threshold) (records : List Record) : List Record :=
  records.filter fun record => threshold.keeps record.level

end MiniC.Log
