import MiniC.Proofs.Grammar.Salvage

/-!
# The words of a program

The first character of a word tells names from numbers: the names of a text start with a letter or
an underscore and its numbers with a digit. So do the words of every tree that can be written down
(`Function.Printable.wellLexed`), and with them those of every tree that is read.
-/

namespace MiniC

/-! ## 1. The words of a text -/

/-- The word starts as names do. -/
def IsName (x : String) : Prop := ∃ c cs, x.toList = c :: cs ∧ Token.isNameStart c = true

/-- The word starts as numbers do. -/
def IsNumber (x : String) : Prop := ∃ c cs, x.toList = c :: cs ∧ c.isDigit = true

theorem IsPlainName.isName {x : String} (h : IsPlainName x) : IsName x := by
  obtain ⟨c, cs, hx, hc, -⟩ := h.admits
  exact ⟨c, cs, hx, hc⟩

theorem IsNumeral.isNumber {x : String} (h : IsNumeral x) : IsNumber x := by
  rcases h with ⟨hne, hdigits⟩ | ⟨whole, fraction, hx, ⟨hne, hdigits⟩, -⟩
  · obtain ⟨c, cs, hx⟩ := List.exists_cons_of_ne_nil hne
    rw [hx] at hdigits
    exact ⟨c, cs, hx, hdigits c List.mem_cons_self⟩
  · obtain ⟨c, cs, rfl⟩ := List.exists_cons_of_ne_nil hne
    exact ⟨c, cs ++ '.' :: fraction, hx, hdigits c List.mem_cons_self⟩

/-! ## 2. The words of a tree -/

mutual

/-- The numbers of an expression start as numbers do. -/
def Expr.WellLexed : Expr → Prop
  | .number text => IsNumber text
  | .string _ | .ident _ => True
  | .binary _ left right => left.WellLexed ∧ right.WellLexed
  | .unary _ operand => operand.WellLexed
  | .call _ args => Expr.WellLexedAll args

/-- The numbers of expressions start as numbers do. -/
def Expr.WellLexedAll : List Expr → Prop
  | [] => True
  | e :: es => e.WellLexed ∧ Expr.WellLexedAll es

end

/-- The declared name starts as names do, and so do the numbers of the initial value. -/
structure Declaration.WellLexed (decl : Declaration) : Prop where
  target : IsName decl.target.name
  init : ∀ e, decl.init = some e → e.WellLexed

mutual

/-- The declared names and the numbers of a statement start as such words do. -/
def Stmt.WellLexed : Stmt → Prop
  | .declare decl => decl.WellLexed
  | .assign a => a.value.WellLexed
  | .call _ args => Expr.WellLexedAll args
  | .ret value _ => ∀ e, value = some e → e.WellLexed
  | .branch cond yes no => cond.WellLexed ∧ Stmt.WellLexedAll yes ∧ Stmt.WellLexedElse no
  | .loop init cond step body =>
    init.WellLexed ∧ cond.WellLexed ∧ step.value.WellLexed ∧ Stmt.WellLexedAll body

/-- The declared names and the numbers of statements start as such words do. -/
def Stmt.WellLexedAll : List Stmt → Prop
  | [] => True
  | stmt :: stmts => stmt.WellLexed ∧ Stmt.WellLexedAll stmts

/-- The same for an `else` block, if there is one. -/
def Stmt.WellLexedElse : Option (List Stmt) → Prop
  | none => True
  | some stmts => Stmt.WellLexedAll stmts

end

/-- The declared names and the numbers of a function start as such words do. -/
structure Function.WellLexed (f : Function) : Prop where
  params : ∀ param ∈ f.params, IsName param.id.name
  body : Stmt.WellLexedAll f.body

/-! ## 3. Trees that can be written down -/

mutual

theorem Expr.wellLexed_of_printable : (e : Expr) → e.Printable → e.WellLexed
  | .number _, hp => IsNumeral.isNumber hp
  | .string _, _ | .ident _, _ => trivial
  | .binary _ left right, hp =>
    ⟨left.wellLexed_of_printable hp.1, right.wellLexed_of_printable hp.2⟩
  | .unary _ operand, hp => operand.wellLexed_of_printable hp
  | .call _ args, hp => Expr.wellLexedAll_of_printable args hp.2

theorem Expr.wellLexedAll_of_printable : (es : List Expr) → Expr.PrintableAll es →
    Expr.WellLexedAll es
  | [], _ => trivial
  | e :: es, hp => ⟨e.wellLexed_of_printable hp.1, Expr.wellLexedAll_of_printable es hp.2⟩

end

theorem Declaration.Printable.wellLexed {decl : Declaration} (h : decl.Printable) :
    decl.WellLexed :=
  ⟨h.target.isName, fun e he => e.wellLexed_of_printable (h.init e he)⟩

mutual

theorem Stmt.wellLexed_of_printable : (stmt : Stmt) → stmt.Printable → stmt.WellLexed
  | .declare _, hp => hp.wellLexed
  | .assign a, hp => a.value.wellLexed_of_printable hp.value
  | .call _ args, hp => Expr.wellLexedAll_of_printable args hp.2
  | .ret _ _, hp => fun e he => e.wellLexed_of_printable (hp e he)
  | .branch cond yes no, hp =>
    ⟨cond.wellLexed_of_printable hp.1, Stmt.wellLexedAll_of_printable yes hp.2.1,
      Stmt.wellLexedElse_of_printable no hp.2.2⟩
  | .loop _ cond step body, hp =>
    ⟨hp.1.wellLexed, cond.wellLexed_of_printable hp.2.1,
      step.value.wellLexed_of_printable hp.2.2.1.value,
      Stmt.wellLexedAll_of_printable body hp.2.2.2⟩

theorem Stmt.wellLexedAll_of_printable : (stmts : List Stmt) → Stmt.PrintableAll stmts →
    Stmt.WellLexedAll stmts
  | [], _ => trivial
  | stmt :: stmts, hp =>
    ⟨stmt.wellLexed_of_printable hp.1, Stmt.wellLexedAll_of_printable stmts hp.2⟩

theorem Stmt.wellLexedElse_of_printable : (no : Option (List Stmt)) → Stmt.PrintableElse no →
    Stmt.WellLexedElse no
  | none, _ => trivial
  | some stmts, hp => Stmt.wellLexedAll_of_printable stmts hp

end

/-- **The words of a function that can be written down start as names and numbers do.** -/
theorem Function.Printable.wellLexed {f : Function} (h : f.Printable) : f.WellLexed :=
  ⟨fun param hparam => (h.params param hparam).2.isName,
    Stmt.wellLexedAll_of_printable f.body h.body⟩

end MiniC
