import MiniC.Proofs.Grammar.Soundness

/-!
# Readers yield everything the grammar spells

A phrase is read in full when what comes after it cannot go on with it. For a chain of operators
that is anything but an operator of one of its levels, and, because a name may be the start of a
call, anything but an opening parenthesis. The inductions are on the derivation; the rest of the
input is arbitrary in each. Together with soundness this fixes the language of the reader
(`Program.errors_read_eq_nil_iff_spells`).
-/

namespace MiniC

/-! ## 1. What can follow, and what can start -/

theorem Token.is_eq_false_of_kind {t : Token} {kind : Token.Kind} (h : t.kind ≠ kind)
    (text : String) : t.is kind text = false := by
  simp [Token.is, h]

theorem Token.is_eq_false_of_text {t : Token} {text : String} (h : t.text ≠ text)
    (kind : Token.Kind) : t.is kind text = false := by
  simp [Token.is, h]

theorem Token.kind_of_is {t : Token} {kind : Token.Kind} {text : String}
    (h : t.is kind text = true) : t.kind = kind :=
  ((Token.is_iff t kind text).mp h).1

theorem Token.text_of_is {t : Token} {kind : Token.Kind} {text : String}
    (h : t.is kind text = true) : t.text = text :=
  ((Token.is_iff t kind text).mp h).2

/-- The tokens cannot go on with a chain of operators of the levels below `n`. -/
def Ends (n : Nat) : List Token → Prop
  | [] => True
  | t :: _ => t.is .separator "(" = false ∧ ∀ op, t.binaryOp? = some op → n ≤ op.level

theorem Ends.of_le {m n : Nat} (hmn : m ≤ n) : ∀ {ts : List Token}, Ends n ts → Ends m ts
  | [], _ => trivial
  | _ :: _, ⟨hopen, hop⟩ => ⟨hopen, fun op h => Nat.le_trans hmn (hop op h)⟩

/-- A separator other than an opening parenthesis ends a chain of any levels. -/
theorem ends_separator {t : Token} {text : String} (h : t.is .separator text = true)
    (hne : text ≠ "(") (n : Nat) (ts : List Token) : Ends n (t :: ts) := by
  have hkind := Token.kind_of_is h
  refine ⟨Token.is_eq_false_of_text (Token.text_of_is h ▸ hne) _, fun op hop => ?_⟩
  rw [Token.binaryOp?, if_neg (by rw [hkind]; decide)] at hop
  cases hop

/-- An operator ends a chain of the levels below its own. -/
theorem ends_operator {n : Nat} {t : Token} {op : BinaryOp} (h : IsOperator n t op)
    (ts : List Token) : Ends n (t :: ts) := by
  obtain ⟨hop, hlevel⟩ := isOperator_iff.mp h
  refine ⟨Token.is_eq_false_of_kind (by rw [h.kind]; decide) _, fun op' hop' => ?_⟩
  rw [hop] at hop'
  cases hop'
  exact Nat.le_of_eq hlevel.symm

/-- After a chain of level `n`, or where one could have stood, its operands have ended. -/
theorem SpellsChain.ends {n : Nat} {us rest : List Token} {tail : List (BinaryOp × Expr)}
    (h : SpellsChain n us tail) (hrest : Ends (n + 1) rest) : Ends n (us ++ rest) := by
  cases h with
  | nil => exact hrest.of_le (Nat.le_succ n)
  | cons ht _ _ => exact ends_operator ht _

/-- The tokens start with one that no separator but an opening parenthesis can be. -/
def StartsExpr : List Token → Prop
  | [] => False
  | t :: _ => t.kind = .separator → t.text = "("

theorem SpellsPrimary.starts {ts : List Token} {e : Expr} (h : SpellsPrimary ts e) :
    StartsExpr ts := by
  cases h with
  | number ht =>
    intro hsep
    rw [hsep] at ht
    rcases ht with ht | ht <;> cases ht
  | string ht =>
    intro hsep
    rw [hsep] at ht
    cases ht
  | ident ht =>
    intro hsep
    rw [hsep] at ht
    cases ht
  | call h =>
    cases h with
    | none ht _ _ | some ht _ _ _ _ =>
      intro hsep
      rcases ht with ht | ht
      · rw [hsep] at ht
        cases ht
      · rw [Token.is_iff, hsep] at ht
        cases ht.1
  | parens ho _ _ => exact fun _ => Token.text_of_is ho

theorem SpellsUnary.starts {ts : List Token} {e : Expr} : SpellsUnary ts e → StartsExpr ts
  | .op _ ht _ => fun hsep => by
    rw [Token.is_iff, hsep] at ht
    cases ht.1
  | .primary h => h.starts

theorem StartsExpr.append {ts : List Token} (h : StartsExpr ts) (us : List Token) :
    StartsExpr (ts ++ us) := by
  cases ts with
  | nil => exact h.elim
  | cons t ts => exact h

theorem SpellsLevel.starts {n : Nat} {ts : List Token} {e : Expr} :
    SpellsLevel n ts e → StartsExpr ts
  | .unary h => h.starts
  | .chain h _ => h.starts.append _

/-- What starts an expression is no separator that may stand in its place. -/
theorem StartsExpr.not_startsWith {ts : List Token} (h : StartsExpr ts) {text : String}
    (hne : text ≠ "(") (rest : List Token) :
    startsWith .separator text (ts ++ rest) = false := by
  cases ts with
  | nil => exact h.elim
  | cons t ts =>
    rw [List.cons_append, startsWith, Token.is, Bool.and_eq_false_iff]
    by_cases hsep : t.kind = .separator
    · right
      rw [h hsep]
      exact decide_eq_false (Ne.symm hne)
    · left
      exact decide_eq_false hsep

/-- After an argument comes a comma or the closing parenthesis. -/
theorem SpellsMore.ends {c : Token} {ts : List Token} {args : List Expr} (h : SpellsMore ts args)
    (hc : c.is .separator ")" = true) {n : Nat} {rest : List Token} :
    Ends n (ts ++ c :: rest) := by
  cases h with
  | nil => exact ends_separator hc (by decide) n _
  | cons ht _ _ => exact ends_separator ht (by decide) n _

theorem unaryOp?_eq_none {t : Token} (h : t.kind ≠ .operator) : t.unaryOp? = none := by
  rw [Token.unaryOp?, if_neg h]

theorem IsCallee.unaryOp?_eq_none {t : Token} (h : IsCallee t) : t.unaryOp? = none := by
  apply MiniC.unaryOp?_eq_none
  rcases h with h | h
  · rw [h]
    decide
  · rw [Token.kind_of_is h]
    decide

/-! ## 2. Expressions -/

namespace Expr

/-- The name of a function and a parenthesis are followed by arguments. -/
theorem readPrimary_call {t : Token} {ts : List Token} (ht : IsCallee t)
    (ho : startsWith .separator "(" ts = true) :
    readPrimary t ts = .after t ((readArguments ts).map (.call t.ident)) := by
  rcases ht with hkind | hprintf
  · simp only [readPrimary, hkind, ho, if_true]
  · obtain ⟨hkind, htext⟩ := (Token.is_iff t _ _).mp hprintf
    simp only [readPrimary, hkind, htext, ho, decide_true, Bool.and_self, if_true]

theorem readPrimary_of_callee {t o : Token} {ts rest : List Token} {args : List Expr}
    (ht : IsCallee t) (ho : o.is .separator "(" = true)
    (h : (readArguments (o :: ts)).Yields args rest) :
    (readPrimary t (o :: ts)).Yields (.call t.ident args) rest := by
  have hopen : startsWith .separator "(" (o :: ts) = true := ho
  rw [readPrimary_call ht hopen]
  exact h.map (Expr.call t.ident)

mutual

theorem readLevel_complete {n : Nat} {ts rest : List Token} {e : Expr} :
    SpellsLevel n ts e → Ends n rest → (readLevel n (ts ++ rest)).Yields e rest
  | .unary h, hrest => by
    rw [readLevel]
    exact readUnary_complete h hrest
  | .chain h h', hrest => by
    rw [readLevel, List.append_assoc]
    exact (readLevel_complete h (h'.ends hrest)).andThen fun _ => readChain_complete h' hrest _

theorem readChain_complete {n : Nat} {ts rest : List Token} {tail : List (BinaryOp × Expr)} :
    SpellsChain n ts tail → Ends (n + 1) rest →
      ∀ left, (readChain n left (ts ++ rest)).Yields (foldChain left tail) rest
  | .nil, hrest, left => by
    cases rest with
    | nil =>
      rw [List.append_nil, readChain]
      exact Reading.yields_done_iff.mpr ⟨rfl, rfl⟩
    | cons t rest =>
      rw [List.nil_append, readChain]
      cases hop : t.binaryOp? with
      | none => exact Reading.yields_done_iff.mpr ⟨rfl, rfl⟩
      | some op =>
        have hlevel : op.level ≠ n := fun h => by
          have := hrest.2 op hop
          omega
        simp only [if_neg hlevel]
        exact Reading.yields_done_iff.mpr ⟨rfl, rfl⟩
  | .cons ht h h', hrest, left => by
    obtain ⟨hop, hlevel⟩ := isOperator_iff.mp ht
    rw [List.cons_append, List.append_assoc, readChain]
    simp only [hop, if_pos hlevel, Reading.yields_after_iff]
    exact (readLevel_complete h (h'.ends hrest)).andThen fun _ => readChain_complete h' hrest _

theorem readUnary_complete {ts rest : List Token} {e : Expr} :
    SpellsUnary ts e → Ends 0 rest → (readUnary (ts ++ rest)).Yields e rest
  | .op op ht h, hrest => by
    rw [List.cons_append, readUnary]
    simp only [unaryOp?_eq_some_iff.mpr ht, Reading.yields_after_iff]
    exact (readUnary_complete h hrest).map (Expr.unary op)
  | .primary h, hrest => readPrimary_complete h hrest

/-- A primary is read where a unary expression may stand, since no unary operator starts one. -/
theorem readPrimary_complete {ts rest : List Token} {e : Expr} :
    SpellsPrimary ts e → Ends 0 rest → (readUnary (ts ++ rest)).Yields e rest
  | .number (t := t) ht, _ => by
    have hop : t.unaryOp? = none :=
      unaryOp?_eq_none (by rcases ht with ht | ht <;> rw [ht] <;> decide)
    rw [List.cons_append, readUnary]
    rcases ht with ht | ht <;>
    · simp only [hop, readPrimary, ht, Reading.yields_after_iff]
      exact Reading.yields_done_iff.mpr ⟨rfl, rfl⟩
  | .string (t := t) ht, _ => by
    have hop : t.unaryOp? = none := unaryOp?_eq_none (by rw [ht]; decide)
    rw [List.cons_append, readUnary]
    simp only [hop, readPrimary, ht, Reading.yields_after_iff]
    exact Reading.yields_done_iff.mpr ⟨rfl, rfl⟩
  | .ident (t := t) ht, hrest => by
    have hop : t.unaryOp? = none := unaryOp?_eq_none (by rw [ht]; decide)
    have hopen : startsWith .separator "(" rest = false := by
      cases rest with
      | nil => rfl
      | cons u rest => exact hrest.1
    rw [List.cons_append, readUnary, List.nil_append]
    simp only [hop, readPrimary, ht, hopen]
    exact Reading.yields_done_iff.mpr ⟨rfl, rfl⟩
  | .call h, _ => by
    obtain ⟨t, o, us, rfl, rfl, ht, ho, hargs⟩ := readArguments_complete h
    rw [List.cons_append, List.cons_append, readUnary]
    simp only [ht.unaryOp?_eq_none]
    exact readPrimary_of_callee ht ho (hargs rest)
  | .parens (o := o) ho h hc, _ => by
    obtain ⟨hkind, htext⟩ := (Token.is_iff o _ _).mp ho
    have hop : o.unaryOp? = none := unaryOp?_eq_none (by rw [hkind]; decide)
    rw [List.cons_append, List.append_assoc, readUnary]
    simp only [hop, readPrimary, hkind, htext, if_true, Reading.yields_after_iff]
    exact (readLevel_complete h (ends_separator hc (by decide) _ _)).andThen fun _ =>
      (yields_expect hc).map _

/-- The arguments of a call are read from the token after the callee on. -/
theorem readArguments_complete {ts : List Token} {callee : Ident} {args : List Expr} :
    SpellsCall ts callee args →
      ∃ t o us, ts = t :: o :: us ∧ callee = t.ident ∧ IsCallee t ∧ o.is .separator "(" = true ∧
        ∀ rest, (readArguments (o :: (us ++ rest))).Yields args rest
  | .none (t := t) (o := o) (c := c) ht ho hc => by
    refine ⟨t, o, [c], rfl, rfl, ht, ho, fun rest => ?_⟩
    rw [readArguments]
    refine (yields_expect ho).andThen fun _ => ?_
    rw [List.cons_append, List.nil_append, startsWith, if_pos hc]
    exact (yields_expect hc).map _
  | .some (t := t) (o := o) (c := c) ht ho h h' hc => by
    refine ⟨t, o, _, rfl, rfl, ht, ho, fun rest => ?_⟩
    rw [readArguments]
    refine (yields_expect ho).andThen fun _ => ?_
    rw [List.append_assoc, List.append_assoc, h.starts.not_startsWith (by decide),
      if_neg (by decide), readFirstArgument]
    exact (readLevel_complete h (h'.ends hc)).andThen fun _ =>
      (readMoreArguments_complete h' hc).map _

theorem readMoreArguments_complete {c : Token} {ts rest : List Token} {args : List Expr} :
    SpellsMore ts args → c.is .separator ")" = true →
      (readMoreArguments (ts ++ c :: rest)).Yields args rest
  | .nil, hc => by
    have hcomma : c.is .separator "," = false :=
      Token.is_eq_false_of_text (by rw [Token.text_of_is hc]; decide) _
    rw [List.nil_append, readMoreArguments, if_neg (by simp [hcomma])]
    exact (yields_expect hc).map _
  | .cons ht h h', hc => by
    rw [List.cons_append, List.append_assoc, readMoreArguments, if_pos ht, readFirstArgument]
    exact (readLevel_complete h (h'.ends hc)).andThen fun _ =>
      (readMoreArguments_complete h' hc).map _

end

/-- An expression is read in full before a separator other than an opening parenthesis. -/
theorem read_complete {c : Token} {ts rest : List Token} {e : Expr} {text : String}
    (h : SpellsExpr ts e) (hc : c.is .separator text = true) (hne : text ≠ "(") :
    (read (ts ++ c :: rest)).Yields e (c :: rest) :=
  readLevel_complete h (ends_separator hc hne _ _)

/-! ## 3. Clauses -/

theorem readInit_complete {s : Token} {ts rest : List Token} {init : Option Expr}
    (h : SpellsInit ts init) (hs : s.is .separator ";" = true) :
    (readInit (ts ++ s :: rest)).Yields init (s :: rest) := by
  cases h with
  | none =>
    have hne : s.is .operator "=" = false :=
      Token.is_eq_false_of_kind (by rw [Token.kind_of_is hs]; decide) _
    rw [List.nil_append, readInit, if_neg (by simp [hne])]
    exact Reading.yields_done_iff.mpr ⟨rfl, rfl⟩
  | some ht h =>
    rw [List.cons_append, readInit, if_pos ht]
    exact (read_complete h hs (by decide)).map _

theorem readReturned_complete {s : Token} {ts rest : List Token} {value : Option Expr}
    (h : SpellsReturned ts value) (hs : s.is .separator ";" = true) :
    (readReturned (ts ++ s :: rest)).Yields value rest := by
  cases h with
  | none =>
    rw [List.nil_append, readReturned, startsWith, if_pos hs]
    exact (yields_expect hs).map _
  | some h =>
    rw [readReturned, h.starts.not_startsWith (by decide), if_neg (by decide)]
    exact (read_complete h hs (by decide)).andThen fun _ => (yields_expect hs).map _

theorem readCondition_complete {o c : Token} {ts rest : List Token} {cond : Expr}
    (ho : o.is .separator "(" = true) (h : SpellsExpr ts cond) (hc : c.is .separator ")" = true) :
    (readCondition (o :: (ts ++ c :: rest))).Yields cond rest := by
  rw [readCondition]
  exact (yields_expect ho).andThen fun _ =>
    (read_complete h hc (by decide)).andThen fun _ => (yields_expect hc).map _

end Expr

/-- A declaration is read from the token after its `int` on. -/
theorem Declaration.read_complete {ts : List Token} {decl : Declaration}
    (h : SpellsDeclaration ts decl) :
    ∃ k us, ts = k :: us ∧ k.is .keyword "int" = true ∧
      ∀ rest, (Declaration.read (us ++ rest)).Yields decl rest := by
  cases h with
  | mk hk hx h hs =>
    refine ⟨_, _, rfl, hk, fun rest => ?_⟩
    rw [Declaration.read, List.cons_append, List.append_assoc]
    exact (yields_expectKind hx).andThen fun _ =>
      (Expr.readInit_complete h hs).andThen fun _ => (yields_expect hs).map _

/-- An assignment is read from the token after its target on. -/
theorem Assignment.readTo_complete {ts : List Token} {a : Assignment}
    (h : SpellsAssignment ts a) :
    ∃ x q us, ts = x :: q :: us ∧ x.kind = .identifier ∧ q.is .operator "=" = true ∧
      ∀ {c : Token} {text : String}, c.is .separator text = true → text ≠ "(" → ∀ rest,
        (Assignment.readTo x.ident (q :: (us ++ c :: rest))).Yields a (c :: rest) := by
  cases h with
  | mk hx hq h =>
    refine ⟨_, _, _, rfl, hx, hq, fun hc hne rest => ?_⟩
    rw [Assignment.readTo]
    exact (yields_expect hq).andThen fun _ => (Expr.read_complete h hc hne).map _

theorem Assignment.read_complete {c : Token} {ts rest : List Token} {a : Assignment}
    {text : String} (h : SpellsAssignment ts a) (hc : c.is .separator text = true)
    (hne : text ≠ "(") : (Assignment.read (ts ++ c :: rest)).Yields a (c :: rest) := by
  obtain ⟨x, q, us, rfl, hx, hq, hread⟩ := Assignment.readTo_complete h
  rw [Assignment.read, List.cons_append, List.cons_append]
  exact (yields_expectKind hx).andThen fun _ => hread hc hne rest

theorem LoopHead.read_complete {o s c : Token} {ts us vs rest : List Token} {init : Declaration}
    {cond : Expr} {step : Assignment} (ho : o.is .separator "(" = true)
    (hinit : SpellsDeclaration ts init) (hcond : SpellsExpr us cond)
    (hs : s.is .separator ";" = true) (hstep : SpellsAssignment vs step)
    (hc : c.is .separator ")" = true) :
    (LoopHead.read (o :: (ts ++ us ++ s :: (vs ++ c :: rest)))).Yields ⟨init, cond, step⟩ rest := by
  obtain ⟨k, ts, rfl, hk, hread⟩ := Declaration.read_complete hinit
  rw [LoopHead.read, List.append_assoc, List.cons_append]
  exact (yields_expect ho).andThen fun _ => (yields_expect hk).andThen fun _ =>
    (hread _).andThen fun _ => (Expr.read_complete hcond hs (by decide)).andThen fun _ =>
    (yields_expect hs).andThen fun _ => (Assignment.read_complete hstep hc (by decide)).andThen
    fun _ => (yields_expect hc).map _

/-! ## 4. Statements -/

/-- What `t` announces, with the tokens that come after it, and how the statement is read from
    there. No statement starts with a closing brace or with `else`, and only an `if` without `else`
    asks that no `else` comes next. -/
structure Opens (stmt : Stmt) (t : Token) (us : List Token) : Prop where
  notClose : t.is .separator Token.closeBrace = false
  notElse : t.is .keyword "else" = false
  read : ∀ rest, startsWith .keyword "else" rest = false →
    ∃ opening, Opening.of? t (us ++ rest) = some opening ∧
      (Stmt.readOpened opening (us ++ rest)).Clean stmt rest

/-- A keyword other than `else` is neither a closing brace nor an `else`. -/
theorem keyword_notClose {t : Token} {text : String} (h : t.is .keyword text = true) :
    t.is .separator Token.closeBrace = false :=
  Token.is_eq_false_of_kind (by rw [Token.kind_of_is h]; decide) _

theorem keyword_ne {t : Token} {text text' : String} (h : t.is .keyword text = true)
    (hne : text ≠ text') : t.is .keyword text' = false :=
  Token.is_eq_false_of_text (by rw [Token.text_of_is h]; exact hne) _

theorem identifier_ne {t : Token} (h : t.kind = .identifier) (text : String) :
    t.is .keyword text = false :=
  Token.is_eq_false_of_kind (by rw [h]; decide) _

theorem Opening.of?_identifier {t : Token} (h : t.kind = .identifier) (ts : List Token) :
    Opening.of? t ts =
      if startsWith .separator "(" ts then some (.call t.ident)
      else if startsWith .operator "=" ts then some (.assignment t.ident)
      else none := by
  simp [Opening.of?, identifier_ne h, h]

/-- What can be called opens a call when an opening parenthesis comes next. -/
theorem Opening.of?_callee {t o : Token} (h : IsCallee t) (ho : o.is .separator "(" = true)
    (ts : List Token) : Opening.of? t (o :: ts) = some (.call t.ident) := by
  rcases h with h | h
  · rw [Opening.of?_identifier h, startsWith, if_pos ho]
  · simp [Opening.of?, h, keyword_ne h]

theorem IsCallee.notClose {t : Token} (h : IsCallee t) :
    t.is .separator Token.closeBrace = false := by
  rcases h with h | h
  · exact Token.is_eq_false_of_kind (by rw [h]; decide) _
  · exact keyword_notClose h

theorem IsCallee.notElse {t : Token} (h : IsCallee t) : t.is .keyword "else" = false := by
  rcases h with h | h
  · exact identifier_ne h _
  · exact keyword_ne h (by decide)

namespace Stmt

mutual

theorem readBlock_complete {ts rest : List Token} {stmts : Block} :
    SpellsBlock ts stmts → (readBlock (ts ++ rest)).Clean stmts rest
  | .mk ho h hc => by
    rw [readBlock, List.cons_append, List.append_assoc]
    exact (yields_expect ho).clean.andThen fun _ => readAll_complete h hc

/-- Statements are read up to and including the closing brace after them. -/
theorem readAll_complete {c : Token} {ts rest : List Token} {stmts : List Stmt} :
    SpellsStmts ts stmts → c.is .separator Token.closeBrace = true →
      (readAll (ts ++ c :: rest)).Clean stmts rest
  | .nil, hc => by
    rw [List.nil_append, readAll, dif_pos hc, Tolerant.clean_tolerant_iff]
    exact Reading.yields_done_iff.mpr ⟨rfl, rfl⟩
  | .cons h h', hc => by
    obtain ⟨t, us, rfl, hopens⟩ := opens_of_spells h
    have hnext := startsWith_else_eq_false h' hc rest
    obtain ⟨opening, hof, ⟨hresult, hrest⟩, hfaults⟩ := hopens.read _ hnext
    rw [List.append_assoc, List.cons_append, readAll, dif_neg (by simp [hopens.notClose])]
    simp only [hof]
    rw [Tolerant.clean_after_iff, Tolerant.clean_follow_iff]
    refine ⟨hfaults, ?_⟩
    simp only [hresult]
    rw [hrest]
    exact (readAll_complete h' hc).map _

/-- After statements of a block comes no `else`. -/
theorem startsWith_else_eq_false {c : Token} {ts : List Token} {stmts : List Stmt} :
    SpellsStmts ts stmts → c.is .separator Token.closeBrace = true →
      ∀ rest, startsWith .keyword "else" (ts ++ c :: rest) = false
  | .nil, hc, _ => Token.is_eq_false_of_kind (by rw [Token.kind_of_is hc]; decide) _
  | .cons h _, _, _ => by
    obtain ⟨t, us, rfl, hopens⟩ := opens_of_spells h
    exact hopens.notElse

/-- A statement opens with its first token. -/
theorem opens_of_spells {ts : List Token} {stmt : Stmt} :
    SpellsStmt ts stmt → ∃ t us, ts = t :: us ∧ Opens stmt t us
  | .declare h => by
    obtain ⟨k, us, rfl, hk, hread⟩ := Declaration.read_complete h
    refine ⟨k, us, rfl, keyword_notClose hk, keyword_ne hk (by decide), fun rest _ => ?_⟩
    refine ⟨.declaration, by rw [Opening.of?, if_pos hk], ?_⟩
    rw [readOpened]
    exact ((hread rest).map _).clean
  | .branch hk ho h hc hyes hno => by
    refine ⟨_, _, rfl, keyword_notClose hk, keyword_ne hk (by decide), fun rest hrest => ?_⟩
    refine ⟨.branch, by simp [Opening.of?, hk, keyword_ne hk], ?_⟩
    rw [readOpened, List.cons_append, List.append_assoc, List.cons_append, List.append_assoc]
    exact (Expr.readCondition_complete ho h hc).clean.andThen fun _ =>
      (readBlock_complete hyes).andThen fun _ => (readElse_complete hno hrest).map _
  | @SpellsStmt.loop _ _ _ _ _ _ vs _ _ _ _ _ hk ho hinit h hs hstep hc hbody => by
    refine ⟨_, _, rfl, keyword_notClose hk, keyword_ne hk (by decide), fun rest _ => ?_⟩
    refine ⟨.loop, by simp [Opening.of?, hk, keyword_ne hk], ?_⟩
    rw [readOpened, List.cons_append, List.append_assoc, List.cons_append, List.append_assoc vs,
      List.cons_append]
    exact (LoopHead.read_complete ho hinit h hs hstep hc).clean.andThen fun _ =>
      (readBlock_complete hbody).map _
  | .ret (k := k) hk h hs => by
    refine ⟨_, _, rfl, keyword_notClose hk, keyword_ne hk (by decide), fun rest _ => ?_⟩
    refine ⟨.ret k.line, by simp [Opening.of?, hk, keyword_ne hk], ?_⟩
    rw [readOpened, List.append_assoc]
    exact ((Expr.readReturned_complete h hs).map _).clean
  | .call (s := s) h hs => by
    obtain ⟨t, o, us, rfl, rfl, ht, ho, hread⟩ := Expr.readArguments_complete h
    refine ⟨t, o :: (us ++ [s]), rfl, ht.notClose, ht.notElse, fun rest _ => ?_⟩
    refine ⟨.call t.ident, Opening.of?_callee ht ho _, ?_⟩
    rw [readOpened, List.cons_append, List.append_assoc]
    exact ((hread _).andThen fun _ => (yields_expect hs).map _).clean
  | .assign (s := s) h hs => by
    obtain ⟨x, q, us, rfl, hx, hq, hread⟩ := Assignment.readTo_complete h
    have hclose : x.is .separator Token.closeBrace = false :=
      Token.is_eq_false_of_kind (by rw [hx]; decide) _
    have hopen : q.is .separator "(" = false :=
      Token.is_eq_false_of_kind (by rw [Token.kind_of_is hq]; decide) _
    refine ⟨x, q :: (us ++ [s]), rfl, hclose, identifier_ne hx _, fun rest _ => ?_⟩
    refine ⟨.assignment x.ident, ?_, ?_⟩
    · rw [Opening.of?_identifier hx, List.cons_append, startsWith, startsWith, hopen, hq]
      rfl
    · rw [readOpened, List.cons_append, List.append_assoc]
      exact ((hread hs (by decide) _).andThen fun _ => (yields_expect hs).map _).clean

theorem readElse_complete {ts rest : List Token} {no : Option Block} :
    SpellsElse ts no → startsWith .keyword "else" rest = false →
      (readElse (ts ++ rest)).Clean no rest
  | .none, hrest => by
    cases rest with
    | nil =>
      rw [List.append_nil, readElse, Tolerant.clean_tolerant_iff]
      exact Reading.yields_done_iff.mpr ⟨rfl, rfl⟩
    | cons t rest =>
      have ht : t.is .keyword "else" = false := hrest
      rw [List.nil_append, readElse, if_neg (by simp [ht]), Tolerant.clean_tolerant_iff]
      exact Reading.yields_done_iff.mpr ⟨rfl, rfl⟩
  | .some hk h, _ => by
    rw [List.cons_append, readElse, if_pos hk]
    exact (readBlock_complete h).map _

end

end Stmt

/-! ## 5. Programs -/

theorem Param.readSome_complete {c : Token} {ts : List Token} {params : List Param}
    (h : SpellsParams ts params) (hc : c.is .separator ")" = true) (rest : List Token) :
    (Param.readSome (ts ++ c :: rest)).Yields params rest := by
  induction h with
  | one hk hx =>
    have hcomma : c.is .separator "," = false :=
      Token.is_eq_false_of_text (by rw [Token.text_of_is hc]; decide) _
    rw [List.cons_append, List.cons_append, List.nil_append, Param.readSome]
    refine (yields_expect hk).andThen fun _ => (yields_expectKind hx).andThen fun _ => ?_
    simp only [hcomma]
    exact (yields_expect hc).map _
  | cons hk hx ht _ ih =>
    rw [List.cons_append, List.cons_append, List.cons_append, Param.readSome]
    refine (yields_expect hk).andThen fun _ => (yields_expectKind hx).andThen fun _ => ?_
    simp only [ht, if_true]
    exact ih.map _

/-- Parameters start with a keyword, so they are told apart from none. -/
theorem SpellsParams.not_startsWith {ts : List Token} {params : List Param}
    (h : SpellsParams ts params) (rest : List Token) :
    startsWith .separator ")" (ts ++ rest) = false := by
  cases h with
  | one hk _ | cons hk _ _ _ =>
    exact Token.is_eq_false_of_kind (by rw [Token.kind_of_is hk]; decide) _

/-- A function is read from the token after its type on. -/
theorem Function.read_complete {ts : List Token} {f : Function} (h : SpellsFunction ts f) :
    ∃ t us type, ts = t :: us ∧ SpellsType t type ∧
      ∀ rest, (Function.read type (us ++ rest)).Clean f rest := by
  cases h with
  | plain ht hx ho hc h =>
    refine ⟨_, _, _, rfl, ht, fun rest => ?_⟩
    rw [Function.read, List.cons_append, List.cons_append, List.cons_append]
    refine (yields_expectKind hx).clean.andThen fun _ => ?_
    refine Tolerant.Clean.andThen (Reading.Yields.clean ?_) fun _ =>
      (Stmt.readBlock_complete h).map _
    rw [Param.readList]
    refine (yields_expect ho).andThen fun _ => ?_
    rw [startsWith, if_pos hc]
    exact (yields_expect hc).map _
  | params ht hx ho hp hc h =>
    refine ⟨_, _, _, rfl, ht, fun rest => ?_⟩
    rw [Function.read, List.cons_append, List.cons_append, List.append_assoc, List.cons_append]
    refine (yields_expectKind hx).clean.andThen fun _ => ?_
    refine Tolerant.Clean.andThen (Reading.Yields.clean ?_) fun _ =>
      (Stmt.readBlock_complete h).map _
    rw [Param.readList]
    refine (yields_expect ho).andThen fun _ => ?_
    rw [hp.not_startsWith, if_neg (by decide)]
    exact Param.readSome_complete hp hc _

/-- **A spelled program is read without a fault, as the tree it stands for.** -/
theorem Program.read_complete {ts : List Token} {program : Program}
    (h : SpellsProgram ts program) : Program.read ts = ⟨program, [], []⟩ := by
  induction h with
  | nil => rw [Program.read]
  | @cons _ later _ _ h _ ih =>
    obtain ⟨t, us, type, rfl, ht, hread⟩ := Function.read_complete h
    obtain ⟨⟨hresult, hrest⟩, hfaults⟩ := hread later
    rw [List.cons_append, Program.read]
    simp only [TypeName.ofToken_eq_ok_iff.mpr ht, hresult, hrest, hfaults, ih, List.append_nil]

/-! ## 6. The language of the reader -/

/-- **The reader accepts exactly the grammar.** It finds no error exactly when the tokens spell a
    program, and the tree it then gives is the one tree they spell. -/
theorem Program.errors_read_eq_nil_iff_spells (ts : List Token) :
    ((Program.read ts).errors = [] ↔ ∃ program, SpellsProgram ts program) ∧
      ∀ program, SpellsProgram ts program ↔
        (Program.read ts).errors = [] ∧ (Program.read ts).program = program := by
  have hexact : ∀ program, SpellsProgram ts program ↔
      (Program.read ts).errors = [] ∧ (Program.read ts).program = program := by
    intro program
    constructor
    · intro h
      rw [Program.read_complete h]
      exact ⟨rfl, rfl⟩
    · intro hread
      obtain ⟨herrors, rfl⟩ := hread
      exact Program.read_sound ts (List.map_eq_nil_iff.mp herrors)
  refine ⟨⟨fun h => ⟨_, (hexact _).mpr ⟨h, rfl⟩⟩, ?_⟩, hexact⟩
  intro hspells
  obtain ⟨program, h⟩ := hspells
  exact ((hexact program).mp h).1

end MiniC
