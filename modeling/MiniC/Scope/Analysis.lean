import MiniC.Scope.Table
import MiniC.Tree.Basic

/-!
# Which names a program uses wrongly

The analysis walks over a program once, in source order. It enters a scope for every function, for
every branch of an `if`, for the head of a `for` and for its body, declares what is declared, and
notes every name that is declared twice in one scope, used without a declaration, or called without
being a function. It never stops early.

A declaration is in force before its own initial value is looked at, and the step of a `for` is
looked at before its body.
-/

namespace MiniC

/-! ## 1. Errors -/

/-- What can be wrong with the use of a name. -/
inductive Misuse where
  /-- The scope already declares the variable. -/
  | redeclared
  /-- The program already defines the function. -/
  | redefined
  /-- No scope around declares the variable. -/
  | undeclared
  /-- No scope around knows the function. -/
  | undefined
  /-- The nearest declaration of the called name is a variable. -/
  | notAFunction
  deriving DecidableEq, Repr

/-- A wrong use of a name, and where it is. -/
structure SemanticError where
  misuse : Misuse
  id : Ident
  deriving DecidableEq, Repr

namespace SemanticError

/-- The wording of the error. -/
def message (e : SemanticError) : String :=
  match e.misuse with
  | .redeclared => "Variable '" ++ e.id.name ++ "' already declared"
  | .redefined => "Function '" ++ e.id.name ++ "' already defined"
  | .undeclared => "Undeclared variable '" ++ e.id.name ++ "'"
  | .undefined => "Function '" ++ e.id.name ++ "' not defined"
  | .notAFunction => "'" ++ e.id.name ++ "' is not a function"

end SemanticError

/-! ## 2. Expressions -/

/-- A name that is read or assigned must be declared. -/
def Ident.misuses (lookup : String → Option Symbol) (id : Ident) : List SemanticError :=
  match lookup id.name with
  | some _ => []
  | none => [⟨.undeclared, id⟩]

/-- A name that is called must be a function. -/
def Ident.callMisuses (lookup : String → Option Symbol) (callee : Ident) : List SemanticError :=
  match (lookup callee.name).map Symbol.meaning with
  | none => [⟨.undefined, callee⟩]
  | some (.var _) => [⟨.notAFunction, callee⟩]
  | some (.func _ _) => []

mutual

/-- The wrong uses of names in an expression, from left to right. -/
def Expr.misuses (lookup : String → Option Symbol) : Expr → List SemanticError
  | .binary _ left right => left.misuses lookup ++ right.misuses lookup
  | .unary _ operand => operand.misuses lookup
  | .number _ => []
  | .ident id => id.misuses lookup
  | .string _ => []
  | .call callee args => callee.callMisuses lookup ++ Expr.misusesAll lookup args

/-- The wrong uses of names in a list of expressions. -/
def Expr.misusesAll (lookup : String → Option Symbol) : List Expr → List SemanticError
  | [] => []
  | e :: es => e.misuses lookup ++ Expr.misusesAll lookup es

end

/-- The wrong uses of names in an assignment: the target comes first. -/
def Assignment.misuses (lookup : String → Option Symbol) (a : Assignment) : List SemanticError :=
  a.target.misuses lookup ++ a.value.misuses lookup

/-! ## 3. Statements -/

/-- The symbol table after some part of a program, and the errors found in that part. -/
structure Analysis where
  table : SymbolTable
  errors : List SemanticError
  deriving DecidableEq, Repr

namespace Analysis

/-- The analysis of one part followed by that of the next, with the table left by the first. -/
def andThen (a : Analysis) (next : SymbolTable → Analysis) : Analysis :=
  let b := next a.table
  ⟨b.table, a.errors ++ b.errors⟩

@[simp] theorem table_andThen (a : Analysis) (next : SymbolTable → Analysis) :
    (a.andThen next).table = (next a.table).table := rfl

@[simp] theorem errors_andThen (a : Analysis) (next : SymbolTable → Analysis) :
    (a.andThen next).errors = a.errors ++ (next a.table).errors := rfl

/-- The analysis with the names looked up, as `misuses` finds them wrong. -/
def checking (a : Analysis) (misuses : (String → Option Symbol) → List SemanticError) : Analysis :=
  ⟨a.table, a.errors ++ misuses a.table.lookup⟩

/-- A part of the program inside a scope of its own. -/
def inScope (table : SymbolTable) (name : String) (part : SymbolTable → Analysis) : Analysis :=
  let a := part (table.enter name)
  ⟨a.table.leave, a.errors⟩

/-- The table with the symbol declared in scope `i`, or the error that `i` holds the name. -/
def declaring (table : SymbolTable) (i : Nat) (symbol : Symbol) (error : SemanticError) :
    Analysis :=
  match table.declare? i symbol with
  | some table' => ⟨table', []⟩
  | none => ⟨table, [error]⟩

/-- A variable declared in the current scope. -/
def declaringVar (table : SymbolTable) (id : Ident) : Analysis :=
  declaring table table.current ⟨id.name, .var id.line⟩ ⟨.redeclared, id⟩

/-- Variables declared in the current scope, one after the other. -/
def declaringVars (table : SymbolTable) : List Ident → Analysis
  | [] => ⟨table, []⟩
  | id :: ids => (declaringVar table id).andThen (declaringVars · ids)

end Analysis

/-- A declaration: the name first, then its initial value. -/
def Declaration.analyze (table : SymbolTable) (decl : Declaration) : Analysis :=
  (Analysis.declaringVar table decl.target).checking fun lookup =>
    (decl.init.map (Expr.misuses lookup)).getD []

mutual

/-- The analysis of a statement. -/
def Stmt.analyze (table : SymbolTable) : Stmt → Analysis
  | .declare decl => decl.analyze table
  | .assign assignment => Analysis.checking ⟨table, []⟩ assignment.misuses
  | .call callee args => Analysis.checking ⟨table, []⟩ (Expr.call callee args).misuses
  | .ret value _ =>
    Analysis.checking ⟨table, []⟩ fun lookup => (value.map (Expr.misuses lookup)).getD []
  | .branch cond yes no =>
    (Analysis.checking ⟨table, []⟩ cond.misuses).andThen fun table =>
      (Analysis.inScope table "block" (Stmt.analyzeAll · yes)).andThen fun table =>
        Stmt.analyzeElse table no
  | .loop init cond step body =>
    Analysis.inScope table "for-loop" fun table =>
      (((init.analyze table).checking cond.misuses).checking step.misuses).andThen fun table =>
        Analysis.inScope table "block" (Stmt.analyzeAll · body)

/-- The analysis of statements in the current scope, one after the other. -/
def Stmt.analyzeAll (table : SymbolTable) : List Stmt → Analysis
  | [] => ⟨table, []⟩
  | stmt :: stmts => (stmt.analyze table).andThen (Stmt.analyzeAll · stmts)

/-- The analysis of an `else` block, if there is one. -/
def Stmt.analyzeElse (table : SymbolTable) : Option (List Stmt) → Analysis
  | none => ⟨table, []⟩
  | some stmts => Analysis.inScope table "block" (Stmt.analyzeAll · stmts)

end

/-! ## 4. Programs -/

/-- The symbol that a function definition declares. -/
def Function.symbol (f : Function) : Symbol :=
  ⟨f.id.name, .func (f.params.map (·.id.name)) (some f.id.line)⟩

/-- A function: its name in the global scope, then its parameters and its body in one scope. -/
def Function.analyze (table : SymbolTable) (f : Function) : Analysis :=
  (Analysis.declaring table SymbolTable.globalScope f.symbol ⟨.redefined, f.id⟩).andThen
    fun table => Analysis.inScope table f.id.name fun table =>
      (Analysis.declaringVars table (f.params.map Param.id)).andThen (Stmt.analyzeAll · f.body)

/-- Functions, one after the other. -/
def Function.analyzeAll (table : SymbolTable) : List Function → Analysis
  | [] => ⟨table, []⟩
  | f :: fs => (f.analyze table).andThen (Function.analyzeAll · fs)

/-- **The scopes of a program and every wrong use of a name, in source order.** -/
def Program.analyze (program : Program) : Analysis :=
  Function.analyzeAll SymbolTable.new program

end MiniC
