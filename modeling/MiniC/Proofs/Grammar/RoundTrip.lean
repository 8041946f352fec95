import MiniC.Proofs.Grammar.Completeness
import MiniC.Proofs.Grammar.Salvage

/-!
# Reading what was written down

A rendering of a tree, spaced and scanned, is a spelling of that tree up to line numbers, and what
is spelled is read back. The argument has two halves: the words of a rendering are lexemes, so
that they come back from the scanner one by one with their kinds, and tokens that are the words of
a rendering spell the tree.
-/

namespace MiniC

open Token (IsLexeme Reads)

/-! ## 1. Fixed words -/

namespace Token

/-- The separators as words. -/
def separatorWords : List String := ["(", ")", openBrace, closeBrace, ";", ","]

theorem fits_separator {word : String} (h : word ∈ separatorWords) : Kind.separator.Fits word := by
  have hall : separatorWords.all (fun w => separators.any (w.toList = [·])) = true := by decide
  obtain ⟨c, hc, hword⟩ := List.any_eq_true.mp (List.all_eq_true.mp hall word h)
  exact ⟨⟨c, hc, of_decide_eq_true hword⟩, fun hkind => by cases hkind⟩

theorem fits_keyword {word : String} (h : word ∈ keywords) : Kind.keyword.Fits word := by
  refine ⟨?_, fun hkind => by cases hkind⟩
  have hword : String.ofList word.toList ∈ keywords := by rwa [String.ofList_toList]
  exact hword

/-- The operators as words. -/
def operatorWords : List String :=
  "=" :: (BinaryOp.all.map BinaryOp.symbol ++ UnaryOp.all.map UnaryOp.symbol)

theorem fits_operator {word : String} (h : word ∈ operatorWords) : Kind.operator.Fits word := by
  have hall : operatorWords.all (fun w =>
      String.ofList w.toList ∈ longOperators || shortOperators.any (w.toList = [·])) = true := by
    decide
  have hword := List.all_eq_true.mp hall word h
  refine ⟨?_, fun hkind => by cases hkind⟩
  rcases Bool.or_eq_true_iff.mp hword with hlong | hshort
  · exact .inl (of_decide_eq_true hlong)
  · obtain ⟨c, hc, hword⟩ := List.any_eq_true.mp hshort
    exact .inr ⟨c, hc, of_decide_eq_true hword⟩

theorem mem_operatorWords_binary (op : BinaryOp) : op.symbol ∈ operatorWords := by
  cases op <;> decide

theorem mem_operatorWords_unary (op : UnaryOp) : op.symbol ∈ operatorWords := by
  cases op <;> decide

/-- The words that are the same in every rendering. -/
def fixedWords : List String := keywords ++ separatorWords ++ operatorWords

theorem isLexeme_of_mem_fixedWords {word : String} (h : word ∈ fixedWords) : IsLexeme word := by
  rcases List.mem_append.mp h with h | h
  · rcases List.mem_append.mp h with h | h
    · exact ⟨.keyword, by decide, fits_keyword h⟩
    · exact ⟨.separator, by decide, fits_separator h⟩
  · exact ⟨.operator, by decide, fits_operator h⟩

/-- The first of the tokens has the kind of the first word. -/
theorem Reads.first {kind : Kind} {ts : List Token} {word : String} {words : List String}
    (h : Reads ts (word :: words)) (hfits : kind.Fits word) (hkind : kind ≠ .mismatch) :
    ∃ t us, ts = t :: us ∧ t.is kind word = true ∧ Reads us words := by
  rw [reads_cons_iff, hfits.kindOf_eq hkind] at h
  exact h

theorem Reads.separator {ts : List Token} {word : String} {words : List String}
    (h : Reads ts (word :: words)) (hword : word ∈ separatorWords) :
    ∃ t us, ts = t :: us ∧ t.is .separator word = true ∧ Reads us words :=
  h.first (fits_separator hword) (by decide)

theorem Reads.keyword {ts : List Token} {word : String} {words : List String}
    (h : Reads ts (word :: words)) (hword : word ∈ keywords) :
    ∃ t us, ts = t :: us ∧ t.is .keyword word = true ∧ Reads us words :=
  h.first (fits_keyword hword) (by decide)

theorem Reads.operator {ts : List Token} {word : String} {words : List String}
    (h : Reads ts (word :: words)) (hword : word ∈ operatorWords) :
    ∃ t us, ts = t :: us ∧ t.is .operator word = true ∧ Reads us words :=
  h.first (fits_operator hword) (by decide)

theorem Reads.name {ts : List Token} {word : String} {words : List String}
    (h : Reads ts (word :: words)) (hword : IsPlainName word) :
    ∃ t us, ts = t :: us ∧ t.kind = .identifier ∧ t.text = word ∧ Reads us words := by
  obtain ⟨t, us, hts, ht, hus⟩ := h.first hword (by decide)
  obtain ⟨hkind, htext⟩ := (is_iff t _ _).mp ht
  exact ⟨t, us, hts, hkind, htext, hus⟩

/-- The separator at the end of a phrase. -/
theorem Reads.closing {ts : List Token} {word : String} {words : List String}
    (h : Reads ts (words ++ [word])) (hword : word ∈ separatorWords) :
    ∃ us t, ts = us ++ [t] ∧ Reads us words ∧ t.is .separator word = true := by
  obtain ⟨us, vs, rfl, hus, hvs⟩ := reads_append_iff.mp h
  obtain ⟨t, ws, rfl, ht, hws⟩ := hvs.separator hword
  rw [reads_nil_iff.mp hws]
  exact ⟨us, t, rfl, hus, ht⟩

end Token

/-- A text between quotes is a string, and the quotes come off again. -/
theorem fits_quoted {value : String} (h : '"' ∉ value.toList) :
    Token.Kind.string.Fits (quoted value) :=
  ⟨⟨value.toList, String.toList_ofList, h⟩, fun hkind => by cases hkind⟩

theorem unquote_quoted (value : String) : unquote (quoted value) = value := by
  unfold unquote quoted
  rw [String.toList_ofList]
  simp

theorem IsPlainName.isLexeme {x : String} (h : IsPlainName x) : IsLexeme x :=
  ⟨.identifier, by decide, h⟩

theorem IsCalleeName.isLexeme {x : String} (h : IsCalleeName x) : IsLexeme x := by
  rcases h with h | rfl
  · exact h.isLexeme
  · exact Token.isLexeme_of_mem_fixedWords (by decide)

theorem IsNumeral.isLexeme {x : String} (h : IsNumeral x) : IsLexeme x := by
  rcases h with h | h
  · exact ⟨.integer, by decide, h, fun hkind => by cases hkind⟩
  · exact ⟨.float, by decide, h, fun hkind => by cases hkind⟩

theorem BinaryOp.isLexeme_symbol (op : BinaryOp) : IsLexeme op.symbol :=
  Token.isLexeme_of_mem_fixedWords (List.mem_append_right _ (Token.mem_operatorWords_binary op))

theorem UnaryOp.isLexeme_symbol (op : UnaryOp) : IsLexeme op.symbol :=
  Token.isLexeme_of_mem_fixedWords (List.mem_append_right _ (Token.mem_operatorWords_unary op))

/-! ## 2. The words of a rendering -/

/-- Every word belongs to one of the kinds of the language. -/
def AllLexemes (words : List String) : Prop := ∀ word ∈ words, IsLexeme word

theorem allLexemes_nil : AllLexemes [] := fun _ h => absurd h List.not_mem_nil

theorem allLexemes_cons_iff {word : String} {words : List String} :
    AllLexemes (word :: words) ↔ IsLexeme word ∧ AllLexemes words := List.forall_mem_cons

theorem allLexemes_append_iff {words words' : List String} :
    AllLexemes (words ++ words') ↔ AllLexemes words ∧ AllLexemes words' := List.forall_mem_append

/-- A fixed word before others. -/
theorem AllLexemes.fixed {words : List String} (h : AllLexemes words) (word : String)
    (hword : word ∈ Token.fixedWords) : AllLexemes (word :: words) :=
  allLexemes_cons_iff.mpr ⟨Token.isLexeme_of_mem_fixedWords hword, h⟩

/-- One phrase before another. -/
theorem AllLexemes.append {words words' : List String} (h : AllLexemes words)
    (h' : AllLexemes words') : AllLexemes (words ++ words') :=
  allLexemes_append_iff.mpr ⟨h, h'⟩

/-- A phrase and the fixed word that closes it. -/
theorem AllLexemes.closed {words : List String} (h : AllLexemes words) (word : String)
    (hword : word ∈ Token.fixedWords) : AllLexemes (words ++ [word]) :=
  h.append (allLexemes_nil.fixed word hword)

mutual

theorem RendersExpr.lexemes : ∀ {n e words}, RendersExpr n e words → e.Printable →
    AllLexemes words
  | _, _, _, .number, hp => allLexemes_cons_iff.mpr ⟨IsNumeral.isLexeme hp, allLexemes_nil⟩
  | _, _, _, .string, hp =>
    allLexemes_cons_iff.mpr ⟨⟨.string, by decide, fits_quoted hp⟩, allLexemes_nil⟩
  | _, _, _, .ident, hp => allLexemes_cons_iff.mpr ⟨IsPlainName.isLexeme hp, allLexemes_nil⟩
  | _, _, _, .call h, hp => by
    have hclosed := (h.lexemes hp.2).closed ")" (by decide)
    exact allLexemes_cons_iff.mpr ⟨hp.1.isLexeme, hclosed.fixed "(" (by decide)⟩
  | _, _, _, .unary h, hp => allLexemes_cons_iff.mpr ⟨UnaryOp.isLexeme_symbol _, h.lexemes hp⟩
  | _, _, _, .binary _ _ hleft hright, hp => by
    refine (hleft.lexemes hp.1).append ?_
    exact allLexemes_cons_iff.mpr ⟨BinaryOp.isLexeme_symbol _, hright.lexemes hp.2⟩
  | _, _, _, .parens h, hp => by
    have hclosed := (h.lexemes hp).closed ")" (by decide)
    exact hclosed.fixed "(" (by decide)

theorem RendersArgs.lexemes : ∀ {args words}, RendersArgs args words → Expr.PrintableAll args →
    AllLexemes words
  | _, _, .none, _ => allLexemes_nil
  | _, _, .some h h', hp => (h.lexemes hp.1).append (h'.lexemes hp.2)

theorem RendersMoreArgs.lexemes : ∀ {args words}, RendersMoreArgs args words →
    Expr.PrintableAll args → AllLexemes words
  | _, _, .nil, _ => allLexemes_nil
  | _, _, .cons h h', hp => ((h.lexemes hp.1).append (h'.lexemes hp.2)).fixed "," (by decide)

end

theorem RendersInit.lexemes {init : Option Expr} {words : List String} (h : RendersInit init words)
    (hp : ∀ e ∈ init, e.Printable) : AllLexemes words := by
  cases h with
  | none => exact allLexemes_nil
  | some h => exact (h.lexemes (hp _ rfl)).fixed "=" (by decide)

theorem RendersDeclaration.lexemes {decl : Declaration} {words : List String}
    (h : RendersDeclaration decl words) (hp : decl.Printable) : AllLexemes words := by
  cases h with
  | mk h =>
    have hvalue := (h.lexemes hp.init).closed ";" (by decide)
    have hnamed := allLexemes_cons_iff.mpr ⟨hp.target.isLexeme, hvalue⟩
    exact hnamed.fixed "int" (by decide)

theorem RendersAssignment.lexemes {a : Assignment} {words : List String}
    (h : RendersAssignment a words) (hp : a.Printable) : AllLexemes words := by
  cases h with
  | mk h =>
    have hvalue := (h.lexemes hp.value).fixed "=" (by decide)
    exact allLexemes_cons_iff.mpr ⟨hp.target.isLexeme, hvalue⟩

theorem RendersReturned.lexemes {value : Option Expr} {words : List String}
    (h : RendersReturned value words) (hp : ∀ e ∈ value, e.Printable) : AllLexemes words := by
  cases h with
  | none => exact allLexemes_nil
  | some h => exact h.lexemes (hp _ rfl)

mutual

theorem RendersBlock.lexemes : ∀ {stmts words}, RendersBlock stmts words →
    Stmt.PrintableAll stmts → AllLexemes words
  | _, _, .mk h, hp => by
    have hclosed := (h.lexemes hp).closed Token.closeBrace (by decide)
    exact hclosed.fixed Token.openBrace (by decide)

theorem RendersStmts.lexemes : ∀ {stmts words}, RendersStmts stmts words →
    Stmt.PrintableAll stmts → AllLexemes words
  | _, _, .nil, _ => allLexemes_nil
  | _, _, .cons h h', hp => (h.lexemes hp.1).append (h'.lexemes hp.2)

theorem RendersStmt.lexemes : ∀ {stmt words}, RendersStmt stmt words → stmt.Printable →
    AllLexemes words
  | _, _, .declare h, hp => h.lexemes hp
  | _, _, .assign h, hp => (h.lexemes hp).closed ";" (by decide)
  | _, _, .call h, hp => by
    obtain ⟨hcallee, hargs⟩ := hp
    have hlist := ((h.lexemes hargs).closed ")" (by decide)).fixed "(" (by decide)
    have hcall := allLexemes_cons_iff.mpr ⟨hcallee.isLexeme, hlist⟩
    exact hcall.closed ";" (by decide)
  | _, _, .branch h hyes hno, hp => by
    obtain ⟨hcond, hthen, helse⟩ := hp
    have hblocks := (hyes.lexemes hthen).append (hno.lexemes helse)
    have hhead := (h.lexemes hcond).append (hblocks.fixed ")" (by decide))
    exact (hhead.fixed "(" (by decide)).fixed "if" (by decide)
  | _, _, .loop hinit h hstep hbody, hp => by
    obtain ⟨hdecl, hcond, hassign, hblock⟩ := hp
    have hlater := (hstep.lexemes hassign).append ((hbody.lexemes hblock).fixed ")" (by decide))
    have hhead := (hinit.lexemes hdecl).append (h.lexemes hcond)
    have hall := hhead.append (hlater.fixed ";" (by decide))
    exact (hall.fixed "(" (by decide)).fixed "for" (by decide)
  | _, _, .ret h, hp => by
    have hclosed := (h.lexemes hp).closed ";" (by decide)
    exact hclosed.fixed "return" (by decide)

theorem RendersElse.lexemes : ∀ {no words}, RendersElse no words → Stmt.PrintableElse no →
    AllLexemes words
  | _, _, .none, _ => allLexemes_nil
  | _, _, .some h, hp => (h.lexemes hp).fixed "else" (by decide)

end

theorem TypeName.word_mem_fixedWords (type : TypeName) : type.word ∈ Token.fixedWords := by
  cases type <;> decide

theorem RendersParams.lexemes {params : List Param} {words : List String}
    (h : RendersParams params words) (hp : ∀ param ∈ params, IsPlainName param.id.name) :
    AllLexemes words := by
  induction h with
  | @one param =>
    have hname := (hp param List.mem_cons_self).isLexeme
    have hlast := allLexemes_cons_iff.mpr ⟨hname, allLexemes_nil⟩
    exact hlast.fixed _ param.type.word_mem_fixedWords
  | @cons param params words h ih =>
    obtain ⟨hname, hlater⟩ := List.forall_mem_cons.mp hp
    have hrest := (ih hlater).fixed "," (by decide)
    have hnamed := allLexemes_cons_iff.mpr ⟨hname.isLexeme, hrest⟩
    exact hnamed.fixed _ param.type.word_mem_fixedWords

theorem RendersFunction.lexemes {f : Function} {words : List String} (h : RendersFunction f words)
    (hp : f.Printable) : AllLexemes words := by
  cases h with
  | @plain type id body words h =>
    have hbody := ((h.lexemes hp.body).fixed ")" (by decide)).fixed "(" (by decide)
    have hnamed := allLexemes_cons_iff.mpr ⟨hp.name.isLexeme, hbody⟩
    exact hnamed.fixed _ type.word_mem_fixedWords
  | @params type id params body pwords words hparams h =>
    have hbody := (h.lexemes hp.body).fixed ")" (by decide)
    have hlist := (hparams.lexemes fun param hparam => (hp.params param hparam).2).append hbody
    have hnamed := allLexemes_cons_iff.mpr ⟨hp.name.isLexeme, hlist.fixed "(" (by decide)⟩
    exact hnamed.fixed _ type.word_mem_fixedWords

/-- **The words of a rendering are lexemes.** -/
theorem RendersProgram.lexemes {program : Program} {words : List String}
    (h : RendersProgram program words) (hp : program.Printable) : AllLexemes words := by
  induction h with
  | nil => exact allLexemes_nil
  | cons h h' ih =>
    obtain ⟨hfirst, hlater⟩ := List.forall_mem_cons.mp hp
    exact (h.lexemes hfirst).append (ih hlater)

/-! ## 3. Levels of a spelling -/

/-- What may stand at a level may stand at a looser one. -/
theorem SpellsLevel.mono {m n : Nat} {ts : List Token} {e : Expr} (h : SpellsLevel m ts e)
    (hmn : m ≤ n) : SpellsLevel n ts e := by
  induction hmn with
  | refl => exact h
  | @step n _ ih =>
    have hchain := SpellsLevel.chain ih (SpellsChain.nil (n := n))
    rwa [List.append_nil] at hchain

theorem SpellsPrimary.level {ts : List Token} {e : Expr} (h : SpellsPrimary ts e) (n : Nat) :
    SpellsLevel n ts e :=
  (SpellsLevel.unary (.primary h)).mono (Nat.zero_le n)

theorem SpellsChain.append {n : Nat} {ts us : List Token} {tail tail' : List (BinaryOp × Expr)}
    (h : SpellsChain n ts tail) (h' : SpellsChain n us tail') :
    SpellsChain n (ts ++ us) (tail ++ tail') := by
  induction tail generalizing ts with
  | nil =>
    cases h
    exact h'
  | cons link tail ih =>
    cases h with
    | cons ht hright hlater =>
      have hrest := SpellsChain.cons ht hright (ih hlater)
      rwa [← List.append_assoc] at hrest

/-- A chain goes on to the right: what was spelled so far is the left operand. -/
theorem SpellsLevel.binary {n : Nat} {t : Token} {op : BinaryOp} {ts us : List Token}
    {left right : Expr} (hleft : SpellsLevel (n + 1) ts left) (ht : IsOperator n t op)
    (hright : SpellsLevel n us right) :
    SpellsLevel (n + 1) (ts ++ t :: us) (.binary op left right) := by
  cases hleft with
  | @chain _ ts ts' first tail hfirst htail =>
    have hlink := SpellsChain.cons ht hright .nil
    have hall := SpellsLevel.chain hfirst (htail.append hlink)
    have hfold : foldChain first (tail ++ [(op, right)]) =
        .binary op (foldChain first tail) right := by
      simp [foldChain]
    rwa [hfold, List.append_nil, ← List.append_assoc] at hall

/-! ## 4. Tokens of a rendering -/

/-- The tokens spell the value up to line numbers. -/
def SpellsLike {α : Type} (spells : List Token → α → Prop) (erase : α → α) (ts : List Token)
    (value : α) : Prop :=
  ∃ value', spells ts value' ∧ erase value' = erase value

theorem IsCalleeName.reads {x : String} {ts : List Token} {words : List String}
    (h : IsCalleeName x) (hts : Reads ts (x :: words)) :
    ∃ t us, ts = t :: us ∧ IsCallee t ∧ t.text = x ∧ Reads us words := by
  rcases h with h | rfl
  · obtain ⟨t, us, rfl, hkind, htext, hus⟩ := hts.name h
    exact ⟨t, us, rfl, .inl hkind, htext, hus⟩
  · obtain ⟨t, us, rfl, ht, hus⟩ := hts.keyword (by decide)
    exact ⟨t, us, rfl, .inr ht, ((Token.is_iff t _ _).mp ht).2, hus⟩

theorem IsNumeral.reads {x : String} {ts : List Token} {words : List String} (h : IsNumeral x)
    (hts : Reads ts (x :: words)) :
    ∃ t us, ts = t :: us ∧ (t.kind = .integer ∨ t.kind = .float) ∧ t.text = x ∧
      Reads us words := by
  rcases h with h | h
  · obtain ⟨t, us, rfl, ht, hus⟩ := hts.first ⟨h, fun hkind => by cases hkind⟩ (by decide)
    obtain ⟨hkind, htext⟩ := (Token.is_iff t _ _).mp ht
    exact ⟨t, us, rfl, .inl hkind, htext, hus⟩
  · obtain ⟨t, us, rfl, ht, hus⟩ := hts.first ⟨h, fun hkind => by cases hkind⟩ (by decide)
    obtain ⟨hkind, htext⟩ := (Token.is_iff t _ _).mp ht
    exact ⟨t, us, rfl, .inr hkind, htext, hus⟩

/-- A token with the text of a name spells it up to its line. -/
theorem Token.withoutLine_ident {t : Token} {id : Ident} (h : t.text = id.name) :
    t.ident.withoutLine = id.withoutLine :=
  Ident.withoutLine_eq_iff.mpr h

mutual

theorem RendersExpr.spells : ∀ {n e words ts}, RendersExpr n e words → e.Printable →
    Reads ts words → SpellsLike (SpellsLevel n) Expr.withoutLines ts e
  | n, _, _, _, .number, hp, hts => by
    obtain ⟨t, us, rfl, hkind, rfl, hus⟩ := IsNumeral.reads hp hts
    rw [Token.reads_nil_iff.mp hus]
    exact ⟨_, (SpellsPrimary.number hkind).level n, rfl⟩
  | n, _, _, _, .string, hp, hts => by
    obtain ⟨t, us, rfl, ht, hus⟩ := hts.first (fits_quoted hp) (by decide)
    obtain ⟨hkind, htext⟩ := (Token.is_iff t _ _).mp ht
    rw [Token.reads_nil_iff.mp hus]
    refine ⟨_, (SpellsPrimary.string hkind).level n, ?_⟩
    rw [htext, unquote_quoted]
  | n, _, _, _, .ident, hp, hts => by
    obtain ⟨t, us, rfl, hkind, htext, hus⟩ := hts.name hp
    rw [Token.reads_nil_iff.mp hus]
    refine ⟨_, (SpellsPrimary.ident hkind).level n, ?_⟩
    rw [Expr.withoutLines, Expr.withoutLines, Token.withoutLine_ident htext]
  | n, _, _, _, .call h, hp, hts => by
    obtain ⟨t, us, rfl, ht, htext, hus⟩ := hp.1.reads hts
    obtain ⟨args, hcall, hsame⟩ := h.spells hp.2 ht hus
    refine ⟨_, (SpellsPrimary.call hcall).level n, ?_⟩
    rw [Expr.withoutLines, Expr.withoutLines, Token.withoutLine_ident htext, hsame]
  | n, _, _, _, .unary h, hp, hts => by
    obtain ⟨t, us, rfl, ht, hus⟩ := hts.operator (Token.mem_operatorWords_unary _)
    obtain ⟨operand, hoperand, hsame⟩ := h.spells hp hus
    cases hoperand with
    | unary hunary =>
      refine ⟨_, (SpellsLevel.unary (.op _ ht hunary)).mono (Nat.zero_le n), ?_⟩
      rw [Expr.withoutLines, Expr.withoutLines, hsame]
  | n, _, _, _, .binary hop hk hleft hright, hp, hts => by
    obtain ⟨us, vs, rfl, hus, hvs⟩ := Token.reads_append_iff.mp hts
    obtain ⟨t, ws, rfl, ht, hws⟩ := hvs.operator (Token.mem_operatorWords_binary _)
    obtain ⟨left, hl, hlsame⟩ := hleft.spells hp.1 hus
    obtain ⟨right, hr, hrsame⟩ := hright.spells hp.2 hws
    obtain ⟨hkind, htext⟩ := (Token.is_iff t _ _).mp ht
    refine ⟨_, (hl.binary ⟨hkind, htext, hop⟩ hr).mono hk, ?_⟩
    rw [Expr.withoutLines, Expr.withoutLines, hlsame, hrsame]
  | n, _, _, _, .parens h, hp, hts => by
    obtain ⟨o, us, rfl, ho, hus⟩ := hts.separator (by decide)
    obtain ⟨vs, c, rfl, hvs, hc⟩ := hus.closing (by decide)
    obtain ⟨inner, hinner, hsame⟩ := h.spells hp hvs
    exact ⟨inner, (SpellsPrimary.parens ho hinner hc).level n, hsame⟩

theorem RendersArgs.spells : ∀ {args words ts t}, RendersArgs args words →
    Expr.PrintableAll args → IsCallee t → Reads ts ("(" :: (words ++ [")"])) →
    SpellsLike (fun ts args => SpellsCall (t :: ts) t.ident args) Expr.withoutLinesAll ts args
  | _, _, _, _, .none, _, ht, hts => by
    obtain ⟨o, us, rfl, ho, hus⟩ := hts.separator (by decide)
    obtain ⟨c, vs, rfl, hc, hvs⟩ := hus.separator (by decide)
    rw [Token.reads_nil_iff.mp hvs]
    exact ⟨[], .none ht ho hc, rfl⟩
  | _, _, _, _, .some h h', hp, ht, hts => by
    obtain ⟨o, us, rfl, ho, hus⟩ := hts.separator (by decide)
    obtain ⟨vs, c, rfl, hvs, hc⟩ := hus.closing (by decide)
    obtain ⟨as, bs, rfl, has, hbs⟩ := Token.reads_append_iff.mp hvs
    obtain ⟨arg, harg, hsame⟩ := h.spells hp.1 has
    obtain ⟨args, hargs, hmore⟩ := h'.spells hp.2 hbs
    refine ⟨arg :: args, .some ht ho harg hargs hc, ?_⟩
    rw [Expr.withoutLinesAll, Expr.withoutLinesAll, hsame, hmore]

theorem RendersMoreArgs.spells : ∀ {args words ts}, RendersMoreArgs args words →
    Expr.PrintableAll args → Reads ts words →
    SpellsLike SpellsMore Expr.withoutLinesAll ts args
  | _, _, _, .nil, _, hts => by
    rw [Token.reads_nil_iff.mp hts]
    exact ⟨[], .nil, rfl⟩
  | _, _, _, .cons h h', hp, hts => by
    obtain ⟨t, us, rfl, ht, hus⟩ := hts.separator (by decide)
    obtain ⟨as, bs, rfl, has, hbs⟩ := Token.reads_append_iff.mp hus
    obtain ⟨arg, harg, hsame⟩ := h.spells hp.1 has
    obtain ⟨args, hargs, hmore⟩ := h'.spells hp.2 hbs
    refine ⟨arg :: args, .cons ht harg hargs, ?_⟩
    rw [Expr.withoutLinesAll, Expr.withoutLinesAll, hsame, hmore]

end

theorem RendersInit.spells {init : Option Expr} {words : List String} {ts : List Token}
    (h : RendersInit init words) (hp : ∀ e ∈ init, e.Printable) (hts : Reads ts words) :
    SpellsLike SpellsInit (Option.map Expr.withoutLines) ts init := by
  cases h with
  | none =>
    rw [Token.reads_nil_iff.mp hts]
    exact ⟨_, .none, rfl⟩
  | some h =>
    obtain ⟨q, us, rfl, hq, hus⟩ := hts.operator (by decide)
    obtain ⟨e, he, hsame⟩ := h.spells (hp _ rfl) hus
    exact ⟨_, .some hq he, congrArg Option.some hsame⟩

theorem RendersDeclaration.spells {decl : Declaration} {words : List String} {ts : List Token}
    (h : RendersDeclaration decl words) (hp : decl.Printable) (hts : Reads ts words) :
    SpellsLike SpellsDeclaration Declaration.withoutLines ts decl := by
  cases h with
  | mk h =>
    obtain ⟨k, us, rfl, hk, hus⟩ := hts.keyword (by decide)
    obtain ⟨x, vs, rfl, hx, htext, hvs⟩ := hus.name hp.target
    obtain ⟨ws, s, rfl, hws, hs⟩ := hvs.closing (by decide)
    obtain ⟨init, hinit, hsame⟩ := h.spells hp.init hws
    refine ⟨_, .mk hk hx hinit hs, ?_⟩
    unfold Declaration.withoutLines
    rw [hsame, Token.withoutLine_ident htext]

theorem RendersAssignment.spells {a : Assignment} {words : List String} {ts : List Token}
    (h : RendersAssignment a words) (hp : a.Printable) (hts : Reads ts words) :
    SpellsLike SpellsAssignment Assignment.withoutLines ts a := by
  cases h with
  | mk h =>
    obtain ⟨x, us, rfl, hx, htext, hus⟩ := hts.name hp.target
    obtain ⟨q, vs, rfl, hq, hvs⟩ := hus.operator (by decide)
    obtain ⟨value, hvalue, hsame⟩ := h.spells hp.value hvs
    refine ⟨_, .mk hx hq hvalue, ?_⟩
    unfold Assignment.withoutLines
    rw [hsame, Token.withoutLine_ident htext]

theorem RendersReturned.spells {value : Option Expr} {words : List String} {ts : List Token}
    (h : RendersReturned value words) (hp : ∀ e ∈ value, e.Printable) (hts : Reads ts words) :
    SpellsLike SpellsReturned (Option.map Expr.withoutLines) ts value := by
  cases h with
  | none =>
    rw [Token.reads_nil_iff.mp hts]
    exact ⟨_, .none, rfl⟩
  | some h =>
    obtain ⟨e, he, hsame⟩ := h.spells (hp _ rfl) hts
    exact ⟨_, .some he, congrArg Option.some hsame⟩

mutual

theorem RendersBlock.spells : ∀ {stmts words ts}, RendersBlock stmts words →
    Stmt.PrintableAll stmts → Reads ts words → SpellsLike SpellsBlock Stmt.withoutLinesAll ts stmts
  | _, _, _, .mk h, hp, hts => by
    obtain ⟨o, us, rfl, ho, hus⟩ := hts.separator (by decide)
    obtain ⟨vs, c, rfl, hvs, hc⟩ := hus.closing (by decide)
    obtain ⟨stmts, hstmts, hsame⟩ := h.spells hp hvs
    exact ⟨stmts, .mk ho hstmts hc, hsame⟩

theorem RendersStmts.spells : ∀ {stmts words ts}, RendersStmts stmts words →
    Stmt.PrintableAll stmts → Reads ts words → SpellsLike SpellsStmts Stmt.withoutLinesAll ts stmts
  | _, _, _, .nil, _, hts => by
    rw [Token.reads_nil_iff.mp hts]
    exact ⟨[], .nil, rfl⟩
  | _, _, _, .cons h h', hp, hts => by
    obtain ⟨us, vs, rfl, hus, hvs⟩ := Token.reads_append_iff.mp hts
    obtain ⟨stmt, hstmt, hsame⟩ := h.spells hp.1 hus
    obtain ⟨stmts, hstmts, hlater⟩ := h'.spells hp.2 hvs
    refine ⟨stmt :: stmts, .cons hstmt hstmts, ?_⟩
    rw [Stmt.withoutLinesAll, Stmt.withoutLinesAll, hsame, hlater]

theorem RendersStmt.spells : ∀ {stmt words ts}, RendersStmt stmt words → stmt.Printable →
    Reads ts words → SpellsLike SpellsStmt Stmt.withoutLines ts stmt
  | _, _, _, .declare h, hp, hts => by
    obtain ⟨decl, hdecl, hsame⟩ := h.spells hp hts
    refine ⟨_, .declare hdecl, ?_⟩
    rw [Stmt.withoutLines, Stmt.withoutLines, hsame]
  | _, _, _, .assign h, hp, hts => by
    obtain ⟨us, s, rfl, hus, hs⟩ := hts.closing (by decide)
    obtain ⟨a, ha, hsame⟩ := h.spells hp hus
    refine ⟨_, .assign ha hs, ?_⟩
    rw [Stmt.withoutLines, Stmt.withoutLines, hsame]
  | _, _, _, .call h, hp, hts => by
    obtain ⟨us, s, rfl, hus, hs⟩ := hts.closing (by decide)
    obtain ⟨t, vs, rfl, ht, htext, hvs⟩ := hp.1.reads hus
    obtain ⟨args, hcall, hsame⟩ := h.spells hp.2 ht hvs
    refine ⟨_, .call hcall hs, ?_⟩
    rw [Stmt.withoutLines, Stmt.withoutLines, Token.withoutLine_ident htext, hsame]
  | _, _, _, .branch h hyes hno, hp, hts => by
    obtain ⟨hcond, hthen, helse⟩ := hp
    obtain ⟨k, us, rfl, hk, hus⟩ := hts.keyword (by decide)
    obtain ⟨o, vs, rfl, ho, hvs⟩ := hus.separator (by decide)
    obtain ⟨cs, ws, rfl, hcs, hws⟩ := Token.reads_append_iff.mp hvs
    obtain ⟨c, bs, rfl, hc, hbs⟩ := hws.separator (by decide)
    obtain ⟨ys, ns, rfl, hys, hns⟩ := Token.reads_append_iff.mp hbs
    obtain ⟨cond, hcond, hcsame⟩ := h.spells hcond hcs
    obtain ⟨yes, hyes, hysame⟩ := hyes.spells hthen hys
    obtain ⟨no, hno, hnsame⟩ := hno.spells helse hns
    refine ⟨_, .branch hk ho hcond hc hyes hno, ?_⟩
    rw [Stmt.withoutLines, Stmt.withoutLines, hcsame, hysame, hnsame]
  | _, _, _, .loop hinit h hstep hbody, hp, hts => by
    obtain ⟨hdecl, hcond, hassign, hblock⟩ := hp
    obtain ⟨k, us, rfl, hk, hus⟩ := hts.keyword (by decide)
    obtain ⟨o, vs, rfl, ho, hvs⟩ := hus.separator (by decide)
    obtain ⟨hs, ws, rfl, hhead, hws⟩ := Token.reads_append_iff.mp hvs
    obtain ⟨is, cs, rfl, his, hcs⟩ := Token.reads_append_iff.mp hhead
    obtain ⟨s, ws, rfl, hs, hws⟩ := hws.separator (by decide)
    obtain ⟨as, bs, rfl, has, hbs⟩ := Token.reads_append_iff.mp hws
    obtain ⟨c, bs, rfl, hc, hbs⟩ := hbs.separator (by decide)
    obtain ⟨init, hinit, hisame⟩ := hinit.spells hdecl his
    obtain ⟨cond, hcond, hcsame⟩ := h.spells hcond hcs
    obtain ⟨step, hstep, hssame⟩ := hstep.spells hassign has
    obtain ⟨body, hbody, hbsame⟩ := hbody.spells hblock hbs
    refine ⟨_, .loop hk ho hinit hcond hs hstep hc hbody, ?_⟩
    rw [Stmt.withoutLines, Stmt.withoutLines, hisame, hcsame, hssame, hbsame]
  | _, _, _, .ret h, hp, hts => by
    obtain ⟨k, us, rfl, hk, hus⟩ := hts.keyword (by decide)
    obtain ⟨vs, s, rfl, hvs, hs⟩ := hus.closing (by decide)
    obtain ⟨value, hvalue, hsame⟩ := h.spells hp hvs
    refine ⟨_, .ret hk hvalue hs, ?_⟩
    rw [Stmt.withoutLines, Stmt.withoutLines, hsame]

theorem RendersElse.spells : ∀ {no words ts}, RendersElse no words → Stmt.PrintableElse no →
    Reads ts words → SpellsLike SpellsElse Stmt.withoutLinesElse ts no
  | _, _, _, .none, _, hts => by
    rw [Token.reads_nil_iff.mp hts]
    exact ⟨_, .none, rfl⟩
  | _, _, _, .some h, hp, hts => by
    obtain ⟨k, us, rfl, hk, hus⟩ := hts.keyword (by decide)
    obtain ⟨stmts, hstmts, hsame⟩ := h.spells hp hus
    refine ⟨_, .some hk hstmts, ?_⟩
    rw [Stmt.withoutLinesElse, Stmt.withoutLinesElse, hsame]

end

theorem TypeName.reads_word {type : TypeName} {ts : List Token} {words : List String}
    (hts : Reads ts (type.word :: words)) :
    ∃ t us, ts = t :: us ∧ SpellsType t type ∧ Reads us words := by
  cases type with
  | int =>
    obtain ⟨t, us, rfl, ht, hus⟩ := hts.keyword (by decide)
    exact ⟨t, us, rfl, .int ht, hus⟩
  | void =>
    obtain ⟨t, us, rfl, ht, hus⟩ := hts.keyword (by decide)
    exact ⟨t, us, rfl, .void ht, hus⟩

theorem RendersParams.spells {params : List Param} {words : List String} {ts : List Token}
    (h : RendersParams params words)
    (hp : ∀ param ∈ params, param.type = .int ∧ IsPlainName param.id.name) (hts : Reads ts words) :
    SpellsLike SpellsParams (List.map Param.withoutLine) ts params := by
  induction h generalizing ts with
  | @one param =>
    obtain ⟨type, id⟩ := param
    obtain ⟨rfl, hname⟩ := hp _ List.mem_cons_self
    obtain ⟨k, us, rfl, hk, hus⟩ := hts.keyword (show "int" ∈ Token.keywords by decide)
    obtain ⟨x, vs, rfl, hx, htext, hvs⟩ := hus.name hname
    rw [Token.reads_nil_iff.mp hvs]
    refine ⟨_, .one hk hx, ?_⟩
    simp [Param.withoutLine, Token.withoutLine_ident htext]
  | @cons param params words h ih =>
    obtain ⟨type, id⟩ := param
    obtain ⟨⟨rfl, hname⟩, hlater⟩ := List.forall_mem_cons.mp hp
    obtain ⟨k, us, rfl, hk, hus⟩ := hts.keyword (show "int" ∈ Token.keywords by decide)
    obtain ⟨x, vs, rfl, hx, htext, hvs⟩ := hus.name hname
    obtain ⟨t, ws, rfl, ht, hws⟩ := hvs.separator (by decide)
    obtain ⟨later, hlater, hsame⟩ := ih hlater hws
    refine ⟨_, .cons hk hx ht hlater, ?_⟩
    simp [Param.withoutLine, Token.withoutLine_ident htext, hsame]

theorem RendersFunction.spells {f : Function} {words : List String} {ts : List Token}
    (h : RendersFunction f words) (hp : f.Printable) (hts : Reads ts words) :
    SpellsLike SpellsFunction Function.withoutLines ts f := by
  cases h with
  | plain h =>
    obtain ⟨t, us, rfl, ht, hus⟩ := TypeName.reads_word hts
    obtain ⟨x, vs, rfl, hx, htext, hvs⟩ := hus.name hp.name
    obtain ⟨o, vs, rfl, ho, hvs⟩ := hvs.separator (by decide)
    obtain ⟨c, vs, rfl, hc, hvs⟩ := hvs.separator (by decide)
    obtain ⟨body, hbody, hsame⟩ := h.spells hp.body hvs
    refine ⟨_, .plain ht hx ho hc hbody, ?_⟩
    unfold Function.withoutLines
    rw [hsame, Token.withoutLine_ident htext]
  | params hparams h =>
    obtain ⟨t, us, rfl, ht, hus⟩ := TypeName.reads_word hts
    obtain ⟨x, vs, rfl, hx, htext, hvs⟩ := hus.name hp.name
    obtain ⟨o, vs, rfl, ho, hvs⟩ := hvs.separator (by decide)
    obtain ⟨ps, bs, rfl, hps, hbs⟩ := Token.reads_append_iff.mp hvs
    obtain ⟨c, bs, rfl, hc, hbs⟩ := hbs.separator (by decide)
    obtain ⟨params, hparams, hpsame⟩ := hparams.spells hp.params hps
    obtain ⟨body, hbody, hsame⟩ := h.spells hp.body hbs
    refine ⟨_, .params ht hx ho hparams hc hbody, ?_⟩
    unfold Function.withoutLines
    rw [hsame, hpsame, Token.withoutLine_ident htext]

/-- **The tokens of a rendering spell the program up to line numbers.** -/
theorem RendersProgram.spells {program : Program} {words : List String} {ts : List Token}
    (h : RendersProgram program words) (hp : program.Printable) (hts : Reads ts words) :
    SpellsLike SpellsProgram Program.withoutLines ts program := by
  induction h generalizing ts with
  | nil =>
    rw [Token.reads_nil_iff.mp hts]
    exact ⟨[], .nil, rfl⟩
  | cons h h' ih =>
    obtain ⟨hfirst, hlater⟩ := List.forall_mem_cons.mp hp
    obtain ⟨us, vs, rfl, hus, hvs⟩ := Token.reads_append_iff.mp hts
    obtain ⟨f, hf, hsame⟩ := h.spells hfirst hus
    obtain ⟨fs, hfs, hrest⟩ := ih hlater hvs
    refine ⟨f :: fs, .cons hf hfs, ?_⟩
    unfold Program.withoutLines at hrest ⊢
    rw [List.map_cons, List.map_cons, hsame, hrest]

/-! ## 5. Reading a rendering back -/

theorem RendersProgram.read {program : Program} {words : List String} {source : String}
    (h : RendersProgram program words) (hp : program.Printable)
    (hsource : Token.Spaced words source.toList) :
    (Program.read (Token.scan source)).errors = [] ∧
      (Program.read (Token.scan source)).program.withoutLines = program.withoutLines := by
  have hreads := Token.reads_scan (h.lexemes hp) hsource
  obtain ⟨program', hspells, hsame⟩ := h.spells hp hreads
  rw [Program.read_complete hspells]
  exact ⟨rfl, hsame⟩

/-- **Writing a program down and reading it gives it back.** Every program has a rendering; every
    rendering of a program that can be written down, spaced in any way, is read without an error
    as that program up to line numbers; and every program that is read from a text, with faults or
    without, can be written down. -/
theorem Program.read_scan_of_renders :
    (∀ program : Program, ∃ words, RendersProgram program words) ∧
    (∀ (program : Program) (words : List String) (source : String), program.Printable →
      RendersProgram program words → Token.Spaced words source.toList →
      (Program.read (Token.scan source)).errors = [] ∧
        (Program.read (Token.scan source)).program.withoutLines = program.withoutLines) ∧
    ∀ source : String, (Program.read (Token.scan source)).program.Printable := by
  refine ⟨fun program => ⟨_, program.renders_words⟩, ?_, Program.printable_read⟩
  intro program words source hp h hsource
  exact h.read hp hsource

/-- A difference to the right of another one, and a message. -/
def nestedDifference : Program :=
  [⟨.int, ⟨"f", 1⟩, [⟨.int, ⟨"a", 1⟩⟩],
    [.call ⟨"printf", 1⟩ [.string "a b"],
      .ret (some (.binary .sub (.ident ⟨"a", 1⟩)
        (.binary .sub (.number "2.5") (.unary .neg (.ident ⟨"a", 1⟩))))) 1]⟩]

/-- The words of `nestedDifference` with a blank between any two. -/
def nestedDifferenceText : String :=
  "int f ( int a ) \x7b printf ( \"a b\" ) ; return a - ( 2.5 - - a ) ; \x7d"

theorem Program.read_scan_of_renders_nestedDifference :
    (Program.read (Token.scan nestedDifferenceText)).errors = [] ∧
      (Program.read (Token.scan nestedDifferenceText)).program.withoutLines =
        nestedDifference.withoutLines := by
  have hf : IsPlainName "f" := ⟨⟨'f', [], rfl, by decide, by simp⟩, fun _ => by decide⟩
  have ha : IsPlainName "a" := ⟨⟨'a', [], rfl, by decide, by simp⟩, fun _ => by decide⟩
  have hnumber : IsNumeral "2.5" := .inr ⟨['2'], ['5'], rfl, by simp [Token.IsDigits]⟩
  have hstring : (Expr.string "a b").Printable := by
    show '"' ∉ "a b".toList
    decide
  have hp : nestedDifference.Printable := by
    refine List.forall_mem_singleton.mpr ⟨hf, List.forall_mem_singleton.mpr ⟨rfl, ha⟩, ?_⟩
    refine ⟨⟨.inr rfl, hstring, trivial⟩, ?_, trivial⟩
    intro e he
    cases he
    exact ⟨ha, hnumber, ha⟩
  have hspaced : Token.Spaced nestedDifference.words nestedDifferenceText.toList := by
    have hblank : (List.replicate 22 [' '] ++ [[]]).all (·.all Text.isBlank) = true := by decide
    refine ⟨[], List.replicate 22 [' '] ++ [[]], by simp, fun gap hgap => ?_, by decide, by decide,
      by decide⟩
    exact List.all_eq_true.mp (List.all_eq_true.mp hblank gap hgap)
  exact Program.read_scan_of_renders.2.1 _ _ _ hp nestedDifference.renders_words hspaced

end MiniC
