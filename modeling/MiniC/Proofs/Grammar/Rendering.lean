import MiniC.Proofs.Grammar.Spelling
import MiniC.Proofs.Token.Spacing
import MiniC.Proofs.Tree.Lines

/-!
# Writing a tree down

A tree can be written down when its words are words of the language (`Printable`). The relations
below then say which lists of words are a rendering of it. They follow the tree: a binary
expression stands bare only where its level is allowed, which is for its left operand one level
more than for its right one, so that a chain leans to the left, and a unary operator takes no bare
operator below it. Parentheses may be put around any expression, needed or not; nothing else about
a rendering is free.
-/

namespace MiniC

/-! ## 1. Trees that can be written down -/

/-- A name that is not reserved. -/
def IsPlainName (x : String) : Prop := Token.Kind.identifier.Fits x

/-- Digits, or digits, a point and digits. -/
def IsNumeral (x : String) : Prop :=
  Token.Kind.integer.Admits x.toList ∨ Token.Kind.float.Admits x.toList

/-- The word can name what is called. -/
def IsCalleeName (x : String) : Prop := IsPlainName x ∨ x = "printf"

mutual

/-- The words of the expression are words of the language. -/
def Expr.Printable : Expr → Prop
  | .binary _ left right => left.Printable ∧ right.Printable
  | .unary _ operand => operand.Printable
  | .number text => IsNumeral text
  | .ident id => IsPlainName id.name
  | .string value => '"' ∉ value.toList
  | .call callee args => IsCalleeName callee.name ∧ Expr.PrintableAll args

/-- The words of the expressions are words of the language. -/
def Expr.PrintableAll : List Expr → Prop
  | [] => True
  | e :: es => e.Printable ∧ Expr.PrintableAll es

end

/-- The words of the declaration are words of the language. -/
structure Declaration.Printable (decl : Declaration) : Prop where
  target : IsPlainName decl.target.name
  init : ∀ e, decl.init = some e → e.Printable

/-- The words of the assignment are words of the language. -/
structure Assignment.Printable (a : Assignment) : Prop where
  target : IsPlainName a.target.name
  value : a.value.Printable

mutual

/-- The words of the statement are words of the language. -/
def Stmt.Printable : Stmt → Prop
  | .declare decl => decl.Printable
  | .assign a => a.Printable
  | .call callee args => IsCalleeName callee.name ∧ Expr.PrintableAll args
  | .branch cond yes no => cond.Printable ∧ Stmt.PrintableAll yes ∧ Stmt.PrintableElse no
  | .loop init cond step body =>
    init.Printable ∧ cond.Printable ∧ step.Printable ∧ Stmt.PrintableAll body
  | .ret value _ => ∀ e, value = some e → e.Printable

/-- The words of the statements are words of the language. -/
def Stmt.PrintableAll : List Stmt → Prop
  | [] => True
  | stmt :: stmts => stmt.Printable ∧ Stmt.PrintableAll stmts

/-- The same for an `else` block, if there is one. -/
def Stmt.PrintableElse : Option (List Stmt) → Prop
  | none => True
  | some stmts => Stmt.PrintableAll stmts

end

/-- The words of the function are words of the language, and its parameters are numbers. -/
structure Function.Printable (f : Function) : Prop where
  name : IsPlainName f.id.name
  params : ∀ param ∈ f.params, param.type = .int ∧ IsPlainName param.id.name
  body : Stmt.PrintableAll f.body

/-- The words of the program are words of the language. -/
def Program.Printable (program : Program) : Prop := ∀ f ∈ program, f.Printable

/-! ## 2. Renderings of expressions -/

/-- The text between quotes. -/
def quoted (value : String) : String := String.ofList ('"' :: (value.toList ++ ['"']))

mutual

/-- The words write the expression down where operators of the levels below `n` may stand bare. -/
inductive RendersExpr : Nat → Expr → List String → Prop where
  | number {n text} : RendersExpr n (.number text) [text]
  | string {n value} : RendersExpr n (.string value) [quoted value]
  | ident {n id} : RendersExpr n (.ident id) [id.name]
  | call {n callee args words} (h : RendersArgs args words) :
      RendersExpr n (.call callee args) (callee.name :: "(" :: (words ++ [")"]))
  | unary {n op e words} (h : RendersExpr 0 e words) :
      RendersExpr n (.unary op e) (op.symbol :: words)
  | binary {n k op left right lwords rwords} (hop : op.symbol ∈ levelSymbols k) (hk : k < n)
      (hleft : RendersExpr (k + 1) left lwords) (hright : RendersExpr k right rwords) :
      RendersExpr n (.binary op left right) (lwords ++ op.symbol :: rwords)
  | parens {n e words} (h : RendersExpr 5 e words) : RendersExpr n e ("(" :: (words ++ [")"]))

/-- The words write the arguments of a call down. -/
inductive RendersArgs : List Expr → List String → Prop where
  | none : RendersArgs [] []
  | some {arg args words more} (h : RendersExpr 5 arg words) (h' : RendersMoreArgs args more) :
      RendersArgs (arg :: args) (words ++ more)

/-- Further arguments, each after a comma. -/
inductive RendersMoreArgs : List Expr → List String → Prop where
  | nil : RendersMoreArgs [] []
  | cons {arg args words more} (h : RendersExpr 5 arg words) (h' : RendersMoreArgs args more) :
      RendersMoreArgs (arg :: args) ("," :: (words ++ more))

end

/-! ## 3. Renderings of statements -/

/-- The value of a declaration with its `=`, if it has one. -/
inductive RendersInit : Option Expr → List String → Prop where
  | none : RendersInit none []
  | some {e words} (h : RendersExpr 5 e words) : RendersInit (some e) ("=" :: words)

/-- The words write the declaration down. -/
inductive RendersDeclaration : Declaration → List String → Prop where
  | mk {target init words} (h : RendersInit init words) :
      RendersDeclaration ⟨target, init⟩ ("int" :: target.name :: (words ++ [";"]))

/-- The words write the assignment down. -/
inductive RendersAssignment : Assignment → List String → Prop where
  | mk {target value words} (h : RendersExpr 5 value words) :
      RendersAssignment ⟨target, value⟩ (target.name :: "=" :: words)

/-- The value of a `return`, if it has one. -/
inductive RendersReturned : Option Expr → List String → Prop where
  | none : RendersReturned none []
  | some {e words} (h : RendersExpr 5 e words) : RendersReturned (some e) words

mutual

/-- The words write the block down. -/
inductive RendersBlock : Block → List String → Prop where
  | mk {stmts words} (h : RendersStmts stmts words) :
      RendersBlock stmts (Token.openBrace :: (words ++ [Token.closeBrace]))

/-- The words write the statements down. -/
inductive RendersStmts : List Stmt → List String → Prop where
  | nil : RendersStmts [] []
  | cons {stmt stmts words more} (h : RendersStmt stmt words) (h' : RendersStmts stmts more) :
      RendersStmts (stmt :: stmts) (words ++ more)

/-- The words write the statement down. -/
inductive RendersStmt : Stmt → List String → Prop where
  | declare {decl words} (h : RendersDeclaration decl words) : RendersStmt (.declare decl) words
  | assign {a words} (h : RendersAssignment a words) : RendersStmt (.assign a) (words ++ [";"])
  | call {callee args words} (h : RendersArgs args words) :
      RendersStmt (.call callee args) (callee.name :: "(" :: (words ++ [")"]) ++ [";"])
  | branch {cond yes no words ywords nwords} (h : RendersExpr 5 cond words)
      (hyes : RendersBlock yes ywords) (hno : RendersElse no nwords) :
      RendersStmt (.branch cond yes no) ("if" :: "(" :: (words ++ ")" :: (ywords ++ nwords)))
  | loop {init cond step body iwords cwords swords bwords} (hinit : RendersDeclaration init iwords)
      (h : RendersExpr 5 cond cwords) (hstep : RendersAssignment step swords)
      (hbody : RendersBlock body bwords) :
      RendersStmt (.loop init cond step body)
        ("for" :: "(" :: (iwords ++ cwords ++ ";" :: (swords ++ ")" :: bwords)))
  | ret {value line words} (h : RendersReturned value words) :
      RendersStmt (.ret value line) ("return" :: (words ++ [";"]))

/-- The `else` of a branch, if it has one. -/
inductive RendersElse : Option Block → List String → Prop where
  | none : RendersElse none []
  | some {stmts words} (h : RendersBlock stmts words) : RendersElse (some stmts) ("else" :: words)

end

/-! ## 4. Renderings of programs -/

/-- The word for a type. -/
def TypeName.word : TypeName → String
  | .int => "int"
  | .void => "void"

/-- One or more parameters, with commas between them. -/
inductive RendersParams : List Param → List String → Prop where
  | one {param} : RendersParams [param] [param.type.word, param.id.name]
  | cons {param params words} (h : RendersParams params words) :
      RendersParams (param :: params) (param.type.word :: param.id.name :: "," :: words)

/-- The words write the function down. -/
inductive RendersFunction : Function → List String → Prop where
  | plain {type id body words} (h : RendersBlock body words) :
      RendersFunction ⟨type, id, [], body⟩ (type.word :: id.name :: "(" :: ")" :: words)
  | params {type id params body pwords words} (hp : RendersParams params pwords)
      (h : RendersBlock body words) :
      RendersFunction ⟨type, id, params, body⟩
        (type.word :: id.name :: "(" :: (pwords ++ ")" :: words))

/-- The words write the program down. -/
inductive RendersProgram : Program → List String → Prop where
  | nil : RendersProgram [] []
  | cons {f fs words more} (h : RendersFunction f words) (h' : RendersProgram fs more) :
      RendersProgram (f :: fs) (words ++ more)

/-! ## 5. The rendering with the fewest parentheses -/

mutual

/-- The expression with parentheses only around operators that may not stand bare. -/
def Expr.words : Expr → Nat → List String
  | .number text, _ => [text]
  | .string value, _ => [quoted value]
  | .ident id, _ => [id.name]
  | .call callee args, _ => callee.name :: "(" :: (Expr.argsWords args ++ [")"])
  | .unary op operand, _ => op.symbol :: operand.words 0
  | .binary op left right, n =>
    let bare := left.words (op.level + 1) ++ op.symbol :: right.words op.level
    if op.level < n then bare else "(" :: (bare ++ [")"])

/-- The arguments of a call, with commas between them. -/
def Expr.argsWords : List Expr → List String
  | [] => []
  | arg :: args => arg.words BinaryOp.levels ++ Expr.moreArgsWords args

/-- Further arguments, each after a comma. -/
def Expr.moreArgsWords : List Expr → List String
  | [] => []
  | arg :: args => "," :: (arg.words BinaryOp.levels ++ Expr.moreArgsWords args)

end

/-- The declaration as words. -/
def Declaration.words (decl : Declaration) : List String :=
  let value := match decl.init with
    | none => []
    | some e => "=" :: e.words BinaryOp.levels
  "int" :: decl.target.name :: (value ++ [";"])

/-- The assignment as words. -/
def Assignment.words (a : Assignment) : List String :=
  a.target.name :: "=" :: a.value.words BinaryOp.levels

/-- The words of a block in its braces. -/
def braced (words : List String) : List String := Token.openBrace :: (words ++ [Token.closeBrace])

mutual

/-- The statement as words. -/
def Stmt.words : Stmt → List String
  | .declare decl => decl.words
  | .assign a => a.words ++ [";"]
  | .call callee args => callee.name :: "(" :: (Expr.argsWords args ++ [")"]) ++ [";"]
  | .branch cond yes no =>
    "if" :: "(" :: (cond.words BinaryOp.levels ++
      ")" :: (braced (Stmt.wordsAll yes) ++ Stmt.elseWords no))
  | .loop init cond step body =>
    "for" :: "(" :: (init.words ++ cond.words BinaryOp.levels ++
      ";" :: (step.words ++ ")" :: braced (Stmt.wordsAll body)))
  | .ret none _ => ["return", ";"]
  | .ret (some value) _ => "return" :: (value.words BinaryOp.levels ++ [";"])

/-- Statements as words. -/
def Stmt.wordsAll : List Stmt → List String
  | [] => []
  | stmt :: stmts => stmt.words ++ Stmt.wordsAll stmts

/-- The `else` of a branch as words. -/
def Stmt.elseWords : Option (List Stmt) → List String
  | none => []
  | some stmts => "else" :: braced (Stmt.wordsAll stmts)

end

/-- Parameters as words, with commas between them. -/
def Param.words : List Param → List String
  | [] => []
  | [param] => [param.type.word, param.id.name]
  | param :: params => param.type.word :: param.id.name :: "," :: Param.words params

/-- The function as words. -/
def Function.words (f : Function) : List String :=
  f.returnType.word :: f.id.name ::
    "(" :: (Param.words f.params ++ ")" :: braced (Stmt.wordsAll f.body))

/-- The program as words. -/
def Program.words (program : Program) : List String := program.flatMap Function.words

mutual

theorem Expr.renders_words : (e : Expr) → (n : Nat) → RendersExpr n e (e.words n)
  | .number _, _ => by
    rw [Expr.words]
    exact .number
  | .string _, _ => by
    rw [Expr.words]
    exact .string
  | .ident _, _ => by
    rw [Expr.words]
    exact .ident
  | .call _ args, _ => by
    rw [Expr.words]
    exact .call (Expr.renders_argsWords args)
  | .unary _ operand, _ => by
    rw [Expr.words]
    exact .unary (operand.renders_words 0)
  | .binary op left right, n => by
    have hop : op.symbol ∈ levelSymbols op.level := (mem_levelSymbols_iff op op.level).mpr rfl
    have hleft := left.renders_words (op.level + 1)
    have hright := right.renders_words op.level
    rw [Expr.words]
    by_cases hbare : op.level < n
    · rw [if_pos hbare]
      exact .binary hop hbare hleft hright
    · rw [if_neg hbare]
      exact .parens (.binary hop op.level_lt_levels hleft hright)

theorem Expr.renders_argsWords : (args : List Expr) → RendersArgs args (Expr.argsWords args)
  | [] => by
    rw [Expr.argsWords]
    exact .none
  | arg :: args => by
    rw [Expr.argsWords]
    exact .some (arg.renders_words 5) (Expr.renders_moreArgsWords args)

theorem Expr.renders_moreArgsWords : (args : List Expr) →
    RendersMoreArgs args (Expr.moreArgsWords args)
  | [] => by
    rw [Expr.moreArgsWords]
    exact .nil
  | arg :: args => by
    rw [Expr.moreArgsWords]
    exact .cons (arg.renders_words 5) (Expr.renders_moreArgsWords args)

end

theorem Declaration.renders_words (decl : Declaration) : RendersDeclaration decl decl.words := by
  obtain ⟨target, init⟩ := decl
  cases init with
  | none => exact .mk .none
  | some e => exact .mk (.some (e.renders_words 5))

theorem Assignment.renders_words (a : Assignment) : RendersAssignment a a.words :=
  .mk (a.value.renders_words 5)

mutual

theorem Stmt.renders_words : (stmt : Stmt) → RendersStmt stmt stmt.words
  | .declare decl => by
    rw [Stmt.words]
    exact .declare decl.renders_words
  | .assign a => by
    rw [Stmt.words]
    exact .assign a.renders_words
  | .call _ args => by
    rw [Stmt.words]
    exact .call (Expr.renders_argsWords args)
  | .branch cond yes no => by
    rw [Stmt.words]
    exact .branch (cond.renders_words 5) (.mk (Stmt.renders_wordsAll yes))
      (Stmt.renders_elseWords no)
  | .loop init cond step body => by
    rw [Stmt.words]
    exact .loop init.renders_words (cond.renders_words 5) step.renders_words
      (.mk (Stmt.renders_wordsAll body))
  | .ret none _ => by
    rw [Stmt.words]
    exact .ret .none
  | .ret (some value) _ => by
    rw [Stmt.words]
    exact .ret (.some (value.renders_words 5))

theorem Stmt.renders_wordsAll : (stmts : List Stmt) → RendersStmts stmts (Stmt.wordsAll stmts)
  | [] => by
    rw [Stmt.wordsAll]
    exact .nil
  | stmt :: stmts => by
    rw [Stmt.wordsAll]
    exact .cons stmt.renders_words (Stmt.renders_wordsAll stmts)

theorem Stmt.renders_elseWords : (no : Option (List Stmt)) → RendersElse no (Stmt.elseWords no)
  | none => by
    rw [Stmt.elseWords]
    exact .none
  | some stmts => by
    rw [Stmt.elseWords]
    exact .some (.mk (Stmt.renders_wordsAll stmts))

end

theorem Param.renders_words {params : List Param} (h : params ≠ []) :
    RendersParams params (Param.words params) := by
  fun_induction Param.words params with
  | case1 => exact absurd rfl h
  | case2 param => exact .one
  | case3 param params hmore ih => exact .cons (ih hmore)

theorem Function.renders_words (f : Function) : RendersFunction f f.words := by
  obtain ⟨type, id, params, body⟩ := f
  have hbody := RendersBlock.mk (Stmt.renders_wordsAll body)
  by_cases hparams : params = []
  · rw [hparams]
    exact .plain hbody
  · exact .params (Param.renders_words hparams) hbody

/-- **Every program has a rendering.** -/
theorem Program.renders_words (program : Program) : RendersProgram program program.words := by
  induction program with
  | nil => exact .nil
  | cons f fs ih => exact .cons f.renders_words ih

end MiniC
