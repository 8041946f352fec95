import MiniC.Diagnostic

/-!
# The scoping rules

What the analysis has to find, said without a table of scopes. A place in a program is surrounded
by regions: the innermost takes the declarations made there, the outermost holds `printf` and the
functions defined so far. A function, each block of an `if`, the head of a `for` and its body are
regions of their own. Walking over the program gives every occurrence of a name with the regions
around it, and one look at an occurrence says whether the name is used wrongly there
(`Occurrence.complaint?`). The regions are handed down the tree and never come back up, so nothing
that is declared in a region can be seen outside it.
-/

namespace MiniC

/-! ## 1. Regions -/

/-- What a name is bound to. -/
inductive Entity where
  | variable
  | function
  deriving DecidableEq, Repr

/-- The names bound in one region, in the order of binding. -/
abbrev Region := List (String × Entity)

/-- The regions around a place: the innermost, and the others from the inside out. -/
structure Surroundings where
  inner : Region
  outer : List Region
  deriving DecidableEq, Repr

namespace Surroundings

/-- Outside all functions, before the first: `printf` can be called. -/
def initial : Surroundings := ⟨[("printf", .function)], []⟩

/-- Inside a new region. -/
def enter (around : Surroundings) : Surroundings := ⟨[], around.inner :: around.outer⟩

/-- What the nearest region that binds the name binds it to. -/
def resolve? (around : Surroundings) (x : String) : Option Entity :=
  (around.inner :: around.outer).findSome? (·.lookup x)

/-- Whether the innermost region binds the name. -/
def binds (around : Surroundings) (x : String) : Bool := (around.inner.lookup x).isSome

/-- The name bound in the innermost region. A name that is bound there stays as it is. -/
def bind (around : Surroundings) (x : String) (entity : Entity) : Surroundings :=
  if around.binds x then around else ⟨around.inner ++ [(x, entity)], around.outer⟩

/-- The variables bound in the innermost region, one after the other. -/
def bindVariables (around : Surroundings) (ids : List Ident) : Surroundings :=
  ids.foldl (fun around id => around.bind id.name .variable) around

end Surroundings

/-! ## 2. Occurrences of names -/

/-- What a name is there for. -/
inductive Role where
  /-- It declares a variable or a parameter. -/
  | declares
  /-- It defines a function. -/
  | defines
  /-- It is read or assigned. -/
  | mentions
  /-- It is called. -/
  | calls
  deriving DecidableEq, Repr

/-- A name in a program, and the regions around it. For a declaration or a definition these are
    the regions before it is made. -/
structure Occurrence where
  role : Role
  id : Ident
  around : Surroundings
  deriving DecidableEq, Repr

/-- **What is wrong with an occurrence**, if anything is, at the line of the occurrence. -/
def Occurrence.complaint? (o : Occurrence) : Option Diagnostic :=
  let complaint (message : String) : Option Diagnostic := some (.semantic message (some o.id.line))
  match o.role with
  | .declares =>
    if o.around.binds o.id.name then complaint ("Variable '" ++ o.id.name ++ "' already declared")
    else none
  | .defines =>
    if o.around.binds o.id.name then complaint ("Function '" ++ o.id.name ++ "' already defined")
    else none
  | .mentions =>
    match o.around.resolve? o.id.name with
    | none => complaint ("Undeclared variable '" ++ o.id.name ++ "'")
    | some _ => none
  | .calls =>
    match o.around.resolve? o.id.name with
    | none => complaint ("Function '" ++ o.id.name ++ "' not defined")
    | some .variable => complaint ("'" ++ o.id.name ++ "' is not a function")
    | some .function => none

/-- What is wrong with the occurrences, in their order. -/
def Occurrence.complaints (os : List Occurrence) : List Diagnostic :=
  os.filterMap Occurrence.complaint?

theorem Occurrence.complaints_append (os os' : List Occurrence) :
    complaints (os ++ os') = complaints os ++ complaints os' :=
  List.filterMap_append

theorem Occurrence.complaints_cons (o : Occurrence) (os : List Occurrence) :
    complaints (o :: os) = complaints [o] ++ complaints os :=
  complaints_append [o] os

/-! ## 3. Walking over a program -/

mutual

/-- The names of an expression from left to right, a callee before its arguments. -/
def Expr.occurrences (around : Surroundings) : Expr → List Occurrence
  | .number _ | .string _ => []
  | .ident id => [⟨.mentions, id, around⟩]
  | .binary _ left right => left.occurrences around ++ right.occurrences around
  | .unary _ operand => operand.occurrences around
  | .call callee args => ⟨.calls, callee, around⟩ :: Expr.occurrencesAll around args

/-- The names of expressions. -/
def Expr.occurrencesAll (around : Surroundings) : List Expr → List Occurrence
  | [] => []
  | e :: es => e.occurrences around ++ Expr.occurrencesAll around es

end

/-- The names of an expression that may be absent. -/
def Expr.occurrencesOption (around : Surroundings) : Option Expr → List Occurrence
  | none => []
  | some e => e.occurrences around

/-- A declaration is in force before its initial value. -/
def Declaration.occurrences (around : Surroundings) (decl : Declaration) : List Occurrence :=
  ⟨.declares, decl.target, around⟩ ::
    Expr.occurrencesOption (around.bind decl.target.name .variable) decl.init

/-- The target of an assignment comes before its value. -/
def Assignment.occurrences (around : Surroundings) (a : Assignment) : List Occurrence :=
  ⟨.mentions, a.target, around⟩ :: a.value.occurrences around

/-- The regions around what comes after a statement. -/
def Stmt.after (around : Surroundings) : Stmt → Surroundings
  | .declare decl => around.bind decl.target.name .variable
  | _ => around

mutual

/-- The names of a statement. The step of a `for` comes before its body. -/
def Stmt.occurrences (around : Surroundings) : Stmt → List Occurrence
  | .declare decl => decl.occurrences around
  | .assign a => a.occurrences around
  | .call callee args => (Expr.call callee args).occurrences around
  | .ret value _ => Expr.occurrencesOption around value
  | .branch cond yes no =>
    cond.occurrences around ++ Stmt.occurrencesAll around.enter yes ++
      Stmt.occurrencesElse around no
  | .loop init cond step body =>
    let head := around.enter.bind init.target.name .variable
    init.occurrences around.enter ++ cond.occurrences head ++ step.occurrences head ++
      Stmt.occurrencesAll head.enter body

/-- The names of statements, one after the other in one region. -/
def Stmt.occurrencesAll (around : Surroundings) : List Stmt → List Occurrence
  | [] => []
  | stmt :: stmts => stmt.occurrences around ++ Stmt.occurrencesAll (stmt.after around) stmts

/-- The names of an `else` block, if there is one. -/
def Stmt.occurrencesElse (around : Surroundings) : Option (List Stmt) → List Occurrence
  | none => []
  | some stmts => Stmt.occurrencesAll around.enter stmts

end

/-- Variables declared in one region, one after the other. -/
def Ident.occurrencesAll (around : Surroundings) : List Ident → List Occurrence
  | [] => []
  | id :: ids =>
    ⟨.declares, id, around⟩ :: Ident.occurrencesAll (around.bind id.name .variable) ids

namespace Function

/-- The regions around the body of a function: its name is bound outside, its parameters inside. -/
def bodySurroundings (around : Surroundings) (f : Function) : Surroundings :=
  (around.bind f.id.name .function).enter.bindVariables (f.params.map Param.id)

/-- The names of a function. Its parameters and its body share one region. -/
def occurrences (around : Surroundings) (f : Function) : List Occurrence :=
  ⟨.defines, f.id, around⟩ ::
    (Ident.occurrencesAll (around.bind f.id.name .function).enter (f.params.map Param.id) ++
      Stmt.occurrencesAll (f.bodySurroundings around) f.body)

/-- The names of functions, each of which is bound for those after it. -/
def occurrencesAll (around : Surroundings) : List Function → List Occurrence
  | [] => []
  | f :: fs => f.occurrences around ++ occurrencesAll (around.bind f.id.name .function) fs

end Function

/-- **The names of a program, in the order of the walk.** -/
def Program.occurrences (program : Program) : List Occurrence :=
  Function.occurrencesAll .initial program

end MiniC
