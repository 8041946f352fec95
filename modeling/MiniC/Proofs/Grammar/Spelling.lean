import MiniC.Grammar.Program

/-!
# The grammar

Which token lists spell a phrase, and the tree that a phrase stands for. Each relation below is one
production of the grammar, read over the kind and the text of the tokens; it mentions no reader,
no lookahead and no recovery:

    program    = func*
    func       = ("int" | "void") ident "(" params? ")" block
    params     = "int" ident ("," "int" ident)*
    block      = { stmt* }
    stmt       = var_decl
               | "if" "(" expr ")" block ("else" block)?
               | "for" "(" var_decl expr ";" assign ")" block
               | "return" expr? ";"
               | call ";"
               | assign ";"
    var_decl   = "int" ident ("=" expr)? ";"
    assign     = ident "=" expr
    call       = (ident | "printf") "(" (expr ("," expr)*)? ")"
    expr       = five levels of binary operators over unary, each folded to the left
    unary      = ("-" | "!") unary | primary
    primary    = num | string | call | ident | "(" expr ")"

Parentheses leave no trace in the tree, and every line of the tree is the line of the token that
carries the name, or of the word `return`.
-/

namespace MiniC

/-! ## 1. Expressions -/

/-- The operators of one level, the tightest level first. -/
def levelSymbols : Nat → List String
  | 0 => ["*", "/"]
  | 1 => ["+", "-"]
  | 2 => ["<", ">", "==", "!=", "<=", ">="]
  | 3 => ["&&"]
  | 4 => ["||"]
  | _ => []

/-- The token is the binary operator `op`, and `op` is one of level `n`. -/
structure IsOperator (n : Nat) (t : Token) (op : BinaryOp) : Prop where
  kind : t.kind = .operator
  text : t.text = op.symbol
  mem : op.symbol ∈ levelSymbols n

/-- The operand `left` and what follows it at one level, folded to the left. -/
def foldChain (left : Expr) (tail : List (BinaryOp × Expr)) : Expr :=
  tail.foldl (fun e link => .binary link.1 e link.2) left

/-- The tokens that can name what is called: any name, and the reserved `printf`. -/
def IsCallee (t : Token) : Prop := t.kind = .identifier ∨ t.is .keyword "printf" = true

mutual

/-- Chains of operators of the levels below `n`. The operands of level `n` are those of the level
    below it; below level 0 stand the unary expressions. -/
inductive SpellsLevel : Nat → List Token → Expr → Prop where
  | unary {ts e} (h : SpellsUnary ts e) : SpellsLevel 0 ts e
  | chain {n ts us left tail} (h : SpellsLevel n ts left) (h' : SpellsChain n us tail) :
      SpellsLevel (n + 1) (ts ++ us) (foldChain left tail)

/-- Operators of level `n`, each followed by its right operand. -/
inductive SpellsChain : Nat → List Token → List (BinaryOp × Expr) → Prop where
  | nil {n} : SpellsChain n [] []
  | cons {n t op ts us right tail} (ht : IsOperator n t op) (h : SpellsLevel n ts right)
      (h' : SpellsChain n us tail) : SpellsChain n (t :: (ts ++ us)) ((op, right) :: tail)

/-- Unary operators, the outermost first, and a primary. -/
inductive SpellsUnary : List Token → Expr → Prop where
  | op {t ts e} (op : UnaryOp) (ht : t.is .operator op.symbol = true) (h : SpellsUnary ts e) :
      SpellsUnary (t :: ts) (.unary op e)
  | primary {ts e} (h : SpellsPrimary ts e) : SpellsUnary ts e

/-- Literals, names, calls, and expressions in parentheses. -/
inductive SpellsPrimary : List Token → Expr → Prop where
  | number {t} (ht : t.kind = .integer ∨ t.kind = .float) : SpellsPrimary [t] (.number t.text)
  | string {t} (ht : t.kind = .string) : SpellsPrimary [t] (.string (unquote t.text))
  | ident {t} (ht : t.kind = .identifier) : SpellsPrimary [t] (.ident t.ident)
  | call {ts callee args} (h : SpellsCall ts callee args) : SpellsPrimary ts (.call callee args)
  | parens {o c ts e} (ho : o.is .separator "(" = true) (h : SpellsLevel 5 ts e)
      (hc : c.is .separator ")" = true) : SpellsPrimary (o :: (ts ++ [c])) e

/-- A callee and its arguments in parentheses. -/
inductive SpellsCall : List Token → Ident → List Expr → Prop where
  | none {t o c} (ht : IsCallee t) (ho : o.is .separator "(" = true)
      (hc : c.is .separator ")" = true) : SpellsCall [t, o, c] t.ident []
  | some {t o c ts us arg args} (ht : IsCallee t) (ho : o.is .separator "(" = true)
      (h : SpellsLevel 5 ts arg) (h' : SpellsMore us args) (hc : c.is .separator ")" = true) :
      SpellsCall (t :: o :: (ts ++ us ++ [c])) t.ident (arg :: args)

/-- Further arguments, each after a comma. -/
inductive SpellsMore : List Token → List Expr → Prop where
  | nil : SpellsMore [] []
  | cons {t ts us arg args} (ht : t.is .separator "," = true) (h : SpellsLevel 5 ts arg)
      (h' : SpellsMore us args) : SpellsMore (t :: (ts ++ us)) (arg :: args)

end

/-- An expression: a chain of operators of any of the five levels. -/
abbrev SpellsExpr (ts : List Token) (e : Expr) : Prop := SpellsLevel 5 ts e

/-! ## 2. Statements -/

/-- The `=` and the initial value of a declaration, if it has one. -/
inductive SpellsInit : List Token → Option Expr → Prop where
  | none : SpellsInit [] none
  | some {t ts e} (ht : t.is .operator "=" = true) (h : SpellsExpr ts e) :
      SpellsInit (t :: ts) (some e)

/-- A declaration with its semicolon. -/
inductive SpellsDeclaration : List Token → Declaration → Prop where
  | mk {k x s ts init} (hk : k.is .keyword "int" = true) (hx : x.kind = .identifier)
      (h : SpellsInit ts init) (hs : s.is .separator ";" = true) :
      SpellsDeclaration (k :: x :: (ts ++ [s])) ⟨x.ident, init⟩

/-- An assignment, without a semicolon. -/
inductive SpellsAssignment : List Token → Assignment → Prop where
  | mk {x q ts e} (hx : x.kind = .identifier) (hq : q.is .operator "=" = true)
      (h : SpellsExpr ts e) : SpellsAssignment (x :: q :: ts) ⟨x.ident, e⟩

/-- The value of a `return`, if it has one. -/
inductive SpellsReturned : List Token → Option Expr → Prop where
  | none : SpellsReturned [] none
  | some {ts e} (h : SpellsExpr ts e) : SpellsReturned ts (some e)

mutual

/-- A block in its braces. -/
inductive SpellsBlock : List Token → Block → Prop where
  | mk {o c ts stmts} (ho : o.is .separator Token.openBrace = true) (h : SpellsStmts ts stmts)
      (hc : c.is .separator Token.closeBrace = true) : SpellsBlock (o :: (ts ++ [c])) stmts

/-- Statements, one after the other. -/
inductive SpellsStmts : List Token → List Stmt → Prop where
  | nil : SpellsStmts [] []
  | cons {ts us stmt stmts} (h : SpellsStmt ts stmt) (h' : SpellsStmts us stmts) :
      SpellsStmts (ts ++ us) (stmt :: stmts)

/-- A statement. -/
inductive SpellsStmt : List Token → Stmt → Prop where
  | declare {ts decl} (h : SpellsDeclaration ts decl) : SpellsStmt ts (.declare decl)
  | branch {k o c ts us vs cond yes no} (hk : k.is .keyword "if" = true)
      (ho : o.is .separator "(" = true) (h : SpellsExpr ts cond)
      (hc : c.is .separator ")" = true) (hyes : SpellsBlock us yes) (hno : SpellsElse vs no) :
      SpellsStmt (k :: o :: (ts ++ c :: (us ++ vs))) (.branch cond yes no)
  | loop {k o s c ts us vs ws init cond step body} (hk : k.is .keyword "for" = true)
      (ho : o.is .separator "(" = true) (hinit : SpellsDeclaration ts init)
      (h : SpellsExpr us cond) (hs : s.is .separator ";" = true)
      (hstep : SpellsAssignment vs step) (hc : c.is .separator ")" = true)
      (hbody : SpellsBlock ws body) :
      SpellsStmt (k :: o :: (ts ++ us ++ s :: (vs ++ c :: ws))) (.loop init cond step body)
  | ret {k s ts value} (hk : k.is .keyword "return" = true) (h : SpellsReturned ts value)
      (hs : s.is .separator ";" = true) : SpellsStmt (k :: (ts ++ [s])) (.ret value k.line)
  | call {s ts callee args} (h : SpellsCall ts callee args) (hs : s.is .separator ";" = true) :
      SpellsStmt (ts ++ [s]) (.call callee args)
  | assign {s ts a} (h : SpellsAssignment ts a) (hs : s.is .separator ";" = true) :
      SpellsStmt (ts ++ [s]) (.assign a)

/-- The `else` of an `if`, if it has one. -/
inductive SpellsElse : List Token → Option Block → Prop where
  | none : SpellsElse [] none
  | some {k ts stmts} (hk : k.is .keyword "else" = true) (h : SpellsBlock ts stmts) :
      SpellsElse (k :: ts) (some stmts)

end

/-! ## 3. Programs -/

/-- A type that a function can return. -/
inductive SpellsType : Token → TypeName → Prop where
  | int {t} (ht : t.is .keyword "int" = true) : SpellsType t .int
  | void {t} (ht : t.is .keyword "void" = true) : SpellsType t .void

/-- One or more parameters. -/
inductive SpellsParams : List Token → List Param → Prop where
  | one {k x} (hk : k.is .keyword "int" = true) (hx : x.kind = .identifier) :
      SpellsParams [k, x] [⟨.int, x.ident⟩]
  | cons {k x t ts params} (hk : k.is .keyword "int" = true) (hx : x.kind = .identifier)
      (ht : t.is .separator "," = true) (h : SpellsParams ts params) :
      SpellsParams (k :: x :: t :: ts) (⟨.int, x.ident⟩ :: params)

/-- A function: its type, its name, its parameters in parentheses and its body. -/
inductive SpellsFunction : List Token → Function → Prop where
  | plain {t x o c ts type body} (ht : SpellsType t type) (hx : x.kind = .identifier)
      (ho : o.is .separator "(" = true) (hc : c.is .separator ")" = true)
      (h : SpellsBlock ts body) : SpellsFunction (t :: x :: o :: c :: ts) ⟨type, x.ident, [], body⟩
  | params {t x o c ts us type params body} (ht : SpellsType t type) (hx : x.kind = .identifier)
      (ho : o.is .separator "(" = true) (hp : SpellsParams ts params)
      (hc : c.is .separator ")" = true) (h : SpellsBlock us body) :
      SpellsFunction (t :: x :: o :: (ts ++ c :: us)) ⟨type, x.ident, params, body⟩

/-- A program: functions, one after the other. -/
inductive SpellsProgram : List Token → Program → Prop where
  | nil : SpellsProgram [] []
  | cons {ts us f fs} (h : SpellsFunction ts f) (h' : SpellsProgram us fs) :
      SpellsProgram (ts ++ us) (f :: fs)

/-! ## 4. Operators and their levels -/

/-- The level of an operator is the one whose symbols hold its own. -/
theorem mem_levelSymbols_iff (op : BinaryOp) (n : Nat) :
    op.symbol ∈ levelSymbols n ↔ op.level = n := by
  match n with
  | 0 | 1 | 2 | 3 | 4 => cases op <;> decide
  | n + 5 => cases op <;> simp [levelSymbols, BinaryOp.level]

/-- What the reader takes for an operator of level `n` is one of the grammar. -/
theorem isOperator_iff {n : Nat} {t : Token} {op : BinaryOp} :
    IsOperator n t op ↔ t.binaryOp? = some op ∧ op.level = n := by
  constructor
  · intro h
    obtain ⟨hkind, htext, hmem⟩ := h
    refine ⟨?_, (mem_levelSymbols_iff op n).mp hmem⟩
    rw [Token.binaryOp?, if_pos hkind, htext, BinaryOp.ofSymbol?_symbol]
  · intro h
    obtain ⟨hop, hlevel⟩ := h
    rw [Token.binaryOp?] at hop
    split at hop
    case isTrue hkind =>
      exact ⟨hkind, (BinaryOp.symbol_of_ofSymbol? hop).symm,
        (mem_levelSymbols_iff op n).mpr hlevel⟩
    case isFalse => cases hop

/-- What the reader takes for a unary operator is one of the grammar. -/
theorem unaryOp?_eq_some_iff {t : Token} {op : UnaryOp} :
    t.unaryOp? = some op ↔ t.is .operator op.symbol = true := by
  rw [Token.is_iff, Token.unaryOp?]
  constructor
  · intro hop
    split at hop
    case isTrue hkind => exact ⟨hkind, (UnaryOp.symbol_of_ofSymbol? hop).symm⟩
    case isFalse => cases hop
  · intro h
    obtain ⟨hkind, htext⟩ := h
    rw [if_pos hkind, htext, UnaryOp.ofSymbol?_symbol]

end MiniC
