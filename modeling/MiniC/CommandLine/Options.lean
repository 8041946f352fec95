import MiniC.Log

/-!
# The arguments of a command

Arguments are read from left to right. A switch may be given once, `-v` as often as one likes, and
short options may share a dash. One argument that is no option names the input; after `--` every
argument is such an argument. The first argument that does not fit ends the reading, and so does
a request for the version or for help: what comes later is not looked at.
-/

namespace MiniC.CommandLine

/-- Where the source text comes from. -/
inductive Input where
  | standard
  | file (path : String)
  deriving DecidableEq, Repr

/-- What a run is to read and to show. -/
structure Options where
  input : Input
  tokens : Bool
  tree : Bool
  scopes : Bool
  code : Bool
  verbosity : Nat
  deriving DecidableEq, Repr

/-- The log threshold of a verbosity. -/
def Options.threshold (options : Options) : Log.Threshold :=
  match options.verbosity with
  | 0 => some .warn
  | 1 => some .info
  | 2 => some .debug
  | _ => some .trace

/-- What the arguments ask for. -/
inductive Request where
  | run (options : Options)
  | showVersion
  | showHelp
  | misuse
  deriving DecidableEq, Repr

/-! ## 1. Arguments seen so far -/

/-- The arguments read so far. -/
structure Seen where
  path : Option String
  tokens : Bool
  tree : Bool
  scopes : Bool
  noCode : Bool
  verbosity : Nat
  deriving DecidableEq, Repr

namespace Seen

/-- No arguments yet. -/
def nothing : Seen := ⟨none, false, false, false, false, 0⟩

/-- The options that the arguments amount to. A lone dash names the standard input, and so does
    the lack of a path. -/
def options (seen : Seen) : Options where
  input := match seen.path with
    | none => .standard
    | some path => if path = "-" then .standard else .file path
  tokens := seen.tokens
  tree := seen.tree
  scopes := seen.scopes
  code := !seen.noCode
  verbosity := seen.verbosity

/-- A step of reading: the arguments seen now, or what the reading ends with. -/
abbrev Step := Except Request Seen

/-- An argument that is no option. -/
def positional (seen : Seen) (path : String) : Step :=
  if seen.path.isSome then .error .misuse else .ok { seen with path := some path }

/-- A long option, by the text after its two dashes. -/
def long (seen : Seen) (name : String) : Step :=
  match name with
  | "tokens" => if seen.tokens then .error .misuse else .ok { seen with tokens := true }
  | "ast" => if seen.tree then .error .misuse else .ok { seen with tree := true }
  | "scopes" => if seen.scopes then .error .misuse else .ok { seen with scopes := true }
  | "no-tac" => if seen.noCode then .error .misuse else .ok { seen with noCode := true }
  | "verbose" => .ok { seen with verbosity := seen.verbosity + 1 }
  | "version" => .error .showVersion
  | "help" => .error .showHelp
  | _ => .error .misuse

/-- The short options that share a dash. -/
def short (seen : Seen) : List Char → Step
  | [] => .ok seen
  | 'v' :: letters => short { seen with verbosity := seen.verbosity + 1 } letters
  | 'V' :: _ => .error .showVersion
  | 'h' :: _ => .error .showHelp
  | _ :: _ => .error .misuse

/-- Arguments after `--`. -/
def readPaths (seen : Seen) : List String → Step
  | [] => .ok seen
  | path :: paths =>
    match seen.positional path with
    | .ok seen => seen.readPaths paths
    | .error request => .error request

/-- Arguments. -/
def read (seen : Seen) : List String → Step
  | [] => .ok seen
  | arg :: args =>
    if arg = "--" then seen.readPaths args
    else
      let step := match arg.toList with
        | '-' :: '-' :: name => seen.long (String.ofList name)
        | '-' :: letter :: letters => seen.short (letter :: letters)
        | _ => seen.positional arg
      match step with
      | .ok seen => seen.read args
      | .error request => .error request

end Seen

/-- **What a list of arguments asks for.** -/
def Request.ofArgs (args : List String) : Request :=
  match Seen.nothing.read args with
  | .ok seen => .run seen.options
  | .error request => request

end MiniC.CommandLine
