import MiniC.Proofs.Grammar.Rendering
import MiniC.Proofs.Grammar.Soundness

/-!
# What is kept of a faulty text

A program may be read from a text with faults. The tree then leaves tokens out, but none is made
up: some of the tokens, in order, spell it (`Program.read_keeps`). So the words of any tree that is
read are words of its text, and the tree can be written down again
(`Program.printable_read`).
-/

namespace MiniC

variable {α : Type} {ts rest : List Token}

/-! ## 1. Kept tokens -/

/-- Some of the tokens before `rest` spell the value. -/
def Kept (spells : List Token → α → Prop) (ts : List Token) (value : α) (rest : List Token) :
    Prop :=
  ∃ us, (us ++ rest).Sublist ts ∧ spells us value

theorem Took.kept {spells : List Token → α → Prop} {value : α} (h : Took spells ts value rest) :
    Kept spells ts value rest := by
  obtain ⟨us, rfl, hus⟩ := h
  exact ⟨us, List.Sublist.refl _, hus⟩

/-! ## 2. Statements -/

namespace Stmt

mutual

theorem readBlock_keeps (ts : List Token) {stmts : Block} {rest : List Token}
    (h : (readBlock ts).toReading.Yields stmts rest) : Kept SpellsBlock ts stmts rest := by
  rw [readBlock, Tolerant.yields_andThen_iff] at h
  obtain ⟨o, mid, hle, hopen, h⟩ := h
  obtain ⟨rfl, ho⟩ := yields_expect_iff.mp hopen
  obtain ⟨us, c, hsub, hus, hc⟩ := readAll_keeps mid h
  refine ⟨o :: (us ++ [c]), ?_, .mk ho hus hc⟩
  rw [List.cons_append, List.append_assoc]
  exact hsub.cons_cons o
termination_by (ts.length, 1)
decreasing_by all_goals subst_vars; simp only [List.length_cons]; omega

/-- After a fault the statements go on with the tokens that recovery left. -/
theorem readAll_keeps (ts : List Token) {stmts : Block} {rest : List Token}
    (h : (readAll ts).toReading.Yields stmts rest) :
    ∃ us c, (us ++ c :: rest).Sublist ts ∧ SpellsStmts us stmts ∧
      c.is .separator Token.closeBrace = true := by
  match ts with
  | [] =>
    rw [readAll] at h
    exact absurd h Reading.not_yields_fail
  | t :: ts =>
    rw [readAll] at h
    split at h
    case isTrue ht =>
      rw [Tolerant.toReading_tolerant, Reading.yields_after_iff, Reading.yields_done_iff] at h
      obtain ⟨rfl, rfl⟩ := h
      exact ⟨[], t, List.Sublist.refl _, .nil, ht⟩
    case isFalse ht =>
      split at h
      case h_1 =>
        have hle := length_recover_cons_le (Bool.eq_false_iff.mpr ht) ts
        obtain ⟨us, c, hsub, hus, hc⟩ := readAll_keeps _ (Tolerant.yields_noting_iff.mp h)
        exact ⟨us, c, hsub.trans (recover_suffix (t :: ts)).sublist, hus, hc⟩
      case h_2 opening hopening =>
        rw [Tolerant.yields_after_iff, Tolerant.yields_follow_iff] at h
        have hle := (readOpened opening ts).suffix.length_le
        cases hresult : (readOpened opening ts).result with
        | error e =>
          simp only [hresult] at h
          have hrecover := recover_suffix (readOpened opening ts).rest
          have hless := hrecover.length_le
          have hsuffix := hrecover.trans (readOpened opening ts).suffix
          obtain ⟨us, c, hsub, hus, hc⟩ := readAll_keeps _ (Tolerant.yields_noting_iff.mp h)
          exact ⟨us, c, (hsub.trans hsuffix.sublist).cons t, hus, hc⟩
        | ok stmt =>
          simp only [hresult, Tolerant.yields_map_iff] at h
          obtain ⟨later, hlater, rfl⟩ := h
          obtain ⟨us, hsub, hus⟩ :=
            readOpened_keeps opening ts (Opening.announcedBy_of_of? hopening) ⟨hresult, rfl⟩
          obtain ⟨vs, c, hrest, hvs, hc⟩ := readAll_keeps _ hlater
          refine ⟨us ++ vs, c, ?_, .cons hus hvs, hc⟩
          rw [List.append_assoc]
          exact (hrest.append_left us).trans hsub
termination_by (ts.length, 0)
decreasing_by all_goals simp only [List.length_cons]; omega

/-- A statement, with the token that announced it before the tokens read. -/
theorem readOpened_keeps {t : Token} (opening : Opening) (ts : List Token)
    (ht : opening.AnnouncedBy t) {stmt : Stmt} {rest : List Token}
    (h : (readOpened opening ts).toReading.Yields stmt rest) :
    Kept SpellsStmt (t :: ts) stmt rest := by
  match opening with
  | .declaration | .ret _ | .call _ | .assignment _ =>
    -- no block is read here, so no fault is met on the way
    exact (readOpened_sound _ ts ht ⟨h, by rw [readOpened, Tolerant.faults_tolerant]⟩).kept
  | .branch =>
    rw [readOpened, Tolerant.yields_andThen_iff] at h
    obtain ⟨cond, mid, hle, hcond, h⟩ := h
    rw [Tolerant.yields_andThen_iff] at h
    obtain ⟨yes, mid', hle', hyes, h⟩ := h
    rw [Tolerant.yields_map_iff] at h
    obtain ⟨no, hno, rfl⟩ := h
    obtain ⟨o, us, c, rfl, ho, hus, hc⟩ := Expr.readCondition_sound hcond
    obtain ⟨vs, hthen, hvs⟩ := readBlock_keeps mid hyes
    obtain ⟨ws, helse, hws⟩ := readElse_keeps mid' hno
    refine ⟨t :: o :: (us ++ c :: (vs ++ ws)), ?_, .branch ht ho hus hc hvs hws⟩
    have hblocks : (vs ++ (ws ++ rest)).Sublist mid := (helse.append_left vs).trans hthen
    simp only [List.cons_append, List.append_assoc]
    exact (((hblocks.cons_cons c).append_left us).cons_cons o).cons_cons t
  | .loop =>
    rw [readOpened, Tolerant.yields_andThen_iff] at h
    obtain ⟨head, mid, hle, hhead, h⟩ := h
    rw [Tolerant.yields_map_iff] at h
    obtain ⟨body, hbody, rfl⟩ := h
    obtain ⟨o, us, vs, s, ws, c, rfl, ho, hus, hvs, hs, hws, hc⟩ := LoopHead.read_sound hhead
    obtain ⟨bs, hsub, hbs⟩ := readBlock_keeps mid hbody
    refine ⟨t :: o :: (us ++ vs ++ s :: (ws ++ c :: bs)), ?_, .loop ht ho hus hvs hs hws hc hbs⟩
    have htail := ((hsub.cons_cons c).append_left ws).cons_cons s
    simp only [List.cons_append, List.append_assoc]
    exact (((htail.append_left vs).append_left us).cons_cons o).cons_cons t
termination_by (ts.length, 3)
decreasing_by all_goals subst_vars; simp only [List.length_cons, List.length_append] at *; omega

theorem readElse_keeps (ts : List Token) {no : Option Block} {rest : List Token}
    (h : (readElse ts).toReading.Yields no rest) : Kept SpellsElse ts no rest := by
  match ts with
  | [] =>
    rw [readElse, Tolerant.toReading_tolerant, Reading.yields_done_iff] at h
    obtain ⟨rfl, rfl⟩ := h
    exact ⟨[], List.Sublist.refl _, .none⟩
  | t :: ts =>
    rw [readElse] at h
    split at h
    case isTrue ht =>
      rw [Tolerant.yields_after_iff, Tolerant.yields_map_iff] at h
      obtain ⟨stmts, hstmts, rfl⟩ := h
      obtain ⟨us, hsub, hus⟩ := readBlock_keeps ts hstmts
      exact ⟨t :: us, hsub.cons_cons t, .some ht hus⟩
    case isFalse =>
      rw [Tolerant.toReading_tolerant, Reading.yields_done_iff] at h
      obtain ⟨rfl, rfl⟩ := h
      exact ⟨[], List.Sublist.refl _, .none⟩
termination_by (ts.length, 2)
decreasing_by all_goals rw [List.length_cons]; omega

end

end Stmt

/-! ## 3. Programs -/

/-- A function, with its type before the tokens read. -/
theorem Function.read_keeps {t : Token} {type : TypeName} (ht : SpellsType t type)
    {ts : List Token} {f : Function} {rest : List Token}
    (h : (Function.read type ts).toReading.Yields f rest) :
    Kept SpellsFunction (t :: ts) f rest := by
  rw [Function.read, Tolerant.yields_andThen_iff] at h
  obtain ⟨x, mid, hle, hname, h⟩ := h
  rw [Tolerant.yields_andThen_iff] at h
  obtain ⟨params, mid', hle', hparams, h⟩ := h
  rw [Tolerant.yields_map_iff] at h
  obtain ⟨body, hbody, rfl⟩ := h
  obtain ⟨rfl, hx⟩ := yields_expectKind_iff.mp hname
  obtain ⟨bs, hsub, hbs⟩ := Stmt.readBlock_keeps mid' hbody
  rw [Tolerant.toReading_tolerant, Param.readList, Reading.yields_andThen_iff] at hparams
  obtain ⟨o, mid'', hle'', hopen, hparams⟩ := hparams
  obtain ⟨rfl, ho⟩ := yields_expect_iff.mp hopen
  split at hparams
  case isTrue =>
    rw [Reading.yields_map_iff] at hparams
    obtain ⟨c, hclose, rfl⟩ := hparams
    obtain ⟨rfl, hc⟩ := yields_expect_iff.mp hclose
    refine ⟨t :: x :: o :: c :: bs, ?_, .plain ht hx ho hc hbs⟩
    exact (((hsub.cons_cons c).cons_cons o).cons_cons x).cons_cons t
  case isFalse =>
    obtain ⟨us, c, rfl, hus, hc⟩ := Param.readSome_sound mid'' hparams
    refine ⟨t :: x :: o :: (us ++ c :: bs), ?_, .params ht hx ho hus hc hbs⟩
    simp only [List.cons_append, List.append_assoc]
    exact ((((hsub.cons_cons c).append_left us).cons_cons o).cons_cons x).cons_cons t

/-- **Some of the tokens, in order, spell the program that is read**, with or without faults. -/
theorem Program.read_keeps (ts : List Token) :
    ∃ us, us.Sublist ts ∧ SpellsProgram us (Program.read ts).program := by
  match ts with
  | [] =>
    rw [Program.read]
    exact ⟨[], List.Sublist.refl _, .nil⟩
  | t :: ts =>
    rw [Program.read]
    cases htype : TypeName.ofToken t with
    | error e => exact ⟨[], List.nil_sublist _, .nil⟩
    | ok type =>
      cases hresult : (Function.read type ts).result with
      | error e =>
        simp only [hresult]
        exact ⟨[], List.nil_sublist _, .nil⟩
      | ok f =>
        simp only [hresult]
        have hle := (Function.read type ts).suffix.length_le
        obtain ⟨us, hsub, hus⟩ :=
          Function.read_keeps (TypeName.ofToken_eq_ok_iff.mp htype) ⟨hresult, rfl⟩
        obtain ⟨vs, hlater, hvs⟩ := Program.read_keeps (Function.read type ts).rest
        exact ⟨us ++ vs, (hlater.append_left us).trans hsub, .cons hus hvs⟩
termination_by ts.length
decreasing_by rw [List.length_cons]; omega

/-! ## 4. The words of what was read -/

/-- The tokens are lexemes of a text. -/
def AllFit (ts : List Token) : Prop := ∀ t ∈ ts, t.kind.Fits t.text

theorem allFit_cons_iff {t : Token} {ts : List Token} :
    AllFit (t :: ts) ↔ t.kind.Fits t.text ∧ AllFit ts := List.forall_mem_cons

theorem allFit_append_iff {ts us : List Token} : AllFit (ts ++ us) ↔ AllFit ts ∧ AllFit us :=
  List.forall_mem_append

/-- A token of kind identifier carries a plain name. -/
theorem Token.isPlainName {t : Token} (h : t.kind.Fits t.text) (hkind : t.kind = .identifier) :
    IsPlainName t.ident.name := by
  rwa [hkind] at h

theorem IsCallee.isCalleeName {t : Token} (ht : IsCallee t) (h : t.kind.Fits t.text) :
    IsCalleeName t.ident.name := by
  rcases ht with hkind | hprintf
  · exact .inl (t.isPlainName h hkind)
  · exact .inr ((Token.is_iff t _ _).mp hprintf).2

theorem Token.isNumeral {t : Token} (h : t.kind.Fits t.text)
    (hkind : t.kind = .integer ∨ t.kind = .float) : IsNumeral t.text := by
  have hadmits := h.admits
  rcases hkind with hkind | hkind
  · rw [hkind] at hadmits
    exact .inl hadmits
  · rw [hkind] at hadmits
    exact .inr hadmits

/-- No quote is left in a string once its own are gone. -/
theorem Token.not_mem_unquote {t : Token} (h : t.kind.Fits t.text) (hkind : t.kind = .string) :
    '"' ∉ (unquote t.text).toList := by
  have hadmits := h.admits
  rw [hkind] at hadmits
  obtain ⟨body, htext, hbody⟩ := hadmits
  unfold unquote
  rw [htext]
  simpa using hbody

theorem Expr.printable_foldChain {tail : List (BinaryOp × Expr)}
    (htail : ∀ link ∈ tail, link.2.Printable) {left : Expr} (hleft : left.Printable) :
    (foldChain left tail).Printable := by
  induction tail generalizing left with
  | nil => exact hleft
  | cons link tail ih =>
    obtain ⟨hlink, htail⟩ := List.forall_mem_cons.mp htail
    exact ih htail ⟨hleft, hlink⟩

mutual

theorem SpellsLevel.printable : ∀ {n ts e}, SpellsLevel n ts e → AllFit ts → e.Printable
  | _, _, _, .unary h, hts => h.printable hts
  | _, _, _, .chain h h', hts => by
    obtain ⟨hleft, hright⟩ := allFit_append_iff.mp hts
    exact Expr.printable_foldChain (h'.printable hright) (h.printable hleft)

theorem SpellsChain.printable : ∀ {n ts tail}, SpellsChain n ts tail → AllFit ts →
    ∀ link ∈ tail, link.2.Printable
  | _, _, _, .nil, _ => fun _ hlink => absurd hlink List.not_mem_nil
  | _, _, _, .cons _ h h', hts => by
    obtain ⟨-, hts⟩ := allFit_cons_iff.mp hts
    obtain ⟨hright, hlater⟩ := allFit_append_iff.mp hts
    exact List.forall_mem_cons.mpr ⟨h.printable hright, h'.printable hlater⟩

theorem SpellsUnary.printable : ∀ {ts e}, SpellsUnary ts e → AllFit ts → e.Printable
  | _, _, .op _ _ h, hts => h.printable (allFit_cons_iff.mp hts).2
  | _, _, .primary h, hts => h.printable hts

theorem SpellsPrimary.printable : ∀ {ts e}, SpellsPrimary ts e → AllFit ts → e.Printable
  | _, _, .number ht, hts => Token.isNumeral (allFit_cons_iff.mp hts).1 ht
  | _, _, .string ht, hts => Token.not_mem_unquote (allFit_cons_iff.mp hts).1 ht
  | _, _, .ident ht, hts => Token.isPlainName (allFit_cons_iff.mp hts).1 ht
  | _, _, .call h, hts => h.printable hts
  | _, _, .parens _ h _, hts => by
    obtain ⟨hinner, -⟩ := allFit_append_iff.mp (allFit_cons_iff.mp hts).2
    exact h.printable hinner

theorem SpellsCall.printable : ∀ {ts callee args}, SpellsCall ts callee args → AllFit ts →
    IsCalleeName callee.name ∧ Expr.PrintableAll args
  | _, _, _, .none ht _ _, hts => ⟨ht.isCalleeName (allFit_cons_iff.mp hts).1, trivial⟩
  | _, _, _, .some ht _ h h' _, hts => by
    obtain ⟨hcallee, hts⟩ := allFit_cons_iff.mp hts
    obtain ⟨-, hts⟩ := allFit_cons_iff.mp hts
    obtain ⟨hargs, -⟩ := allFit_append_iff.mp hts
    obtain ⟨harg, hmore⟩ := allFit_append_iff.mp hargs
    exact ⟨ht.isCalleeName hcallee, h.printable harg, h'.printable hmore⟩

theorem SpellsMore.printable : ∀ {ts args}, SpellsMore ts args → AllFit ts →
    Expr.PrintableAll args
  | _, _, .nil, _ => trivial
  | _, _, .cons _ h h', hts => by
    obtain ⟨-, hts⟩ := allFit_cons_iff.mp hts
    obtain ⟨harg, hmore⟩ := allFit_append_iff.mp hts
    exact ⟨h.printable harg, h'.printable hmore⟩

end

theorem SpellsInit.printable {ts : List Token} {init : Option Expr} (h : SpellsInit ts init)
    (hts : AllFit ts) : ∀ e ∈ init, e.Printable := by
  intro e he
  cases h with
  | none => cases he
  | some ht h =>
    cases he
    exact h.printable (allFit_cons_iff.mp hts).2

theorem SpellsDeclaration.printable {ts : List Token} {decl : Declaration}
    (h : SpellsDeclaration ts decl) (hts : AllFit ts) : decl.Printable := by
  cases h with
  | mk hk hx h hs =>
    obtain ⟨-, hts⟩ := allFit_cons_iff.mp hts
    obtain ⟨hname, hts⟩ := allFit_cons_iff.mp hts
    obtain ⟨hinit, -⟩ := allFit_append_iff.mp hts
    exact ⟨Token.isPlainName hname hx, h.printable hinit⟩

theorem SpellsAssignment.printable {ts : List Token} {a : Assignment}
    (h : SpellsAssignment ts a) (hts : AllFit ts) : a.Printable := by
  cases h with
  | mk hx hq h =>
    obtain ⟨hname, hts⟩ := allFit_cons_iff.mp hts
    obtain ⟨-, hvalue⟩ := allFit_cons_iff.mp hts
    exact ⟨Token.isPlainName hname hx, h.printable hvalue⟩

theorem SpellsReturned.printable {ts : List Token} {value : Option Expr}
    (h : SpellsReturned ts value) (hts : AllFit ts) : ∀ e ∈ value, e.Printable := by
  intro e he
  cases h with
  | none => cases he
  | some h =>
    cases he
    exact h.printable hts

mutual

theorem SpellsBlock.printable : ∀ {ts stmts}, SpellsBlock ts stmts → AllFit ts →
    Stmt.PrintableAll stmts
  | _, _, .mk _ h _, hts => by
    obtain ⟨hstmts, -⟩ := allFit_append_iff.mp (allFit_cons_iff.mp hts).2
    exact h.printable hstmts

theorem SpellsStmts.printable : ∀ {ts stmts}, SpellsStmts ts stmts → AllFit ts →
    Stmt.PrintableAll stmts
  | _, _, .nil, _ => trivial
  | _, _, .cons h h', hts => by
    obtain ⟨hfirst, hlater⟩ := allFit_append_iff.mp hts
    exact ⟨h.printable hfirst, h'.printable hlater⟩

theorem SpellsStmt.printable : ∀ {ts stmt}, SpellsStmt ts stmt → AllFit ts → stmt.Printable
  | _, _, .declare h, hts => h.printable hts
  | _, _, .branch _ _ h _ hyes hno, hts => by
    obtain ⟨-, hts⟩ := allFit_cons_iff.mp hts
    obtain ⟨-, hts⟩ := allFit_cons_iff.mp hts
    obtain ⟨hcond, hts⟩ := allFit_append_iff.mp hts
    obtain ⟨-, hts⟩ := allFit_cons_iff.mp hts
    obtain ⟨hthen, helse⟩ := allFit_append_iff.mp hts
    exact ⟨h.printable hcond, hyes.printable hthen, hno.printable helse⟩
  | _, _, .loop _ _ hinit h _ hstep _ hbody, hts => by
    obtain ⟨-, hts⟩ := allFit_cons_iff.mp hts
    obtain ⟨-, hts⟩ := allFit_cons_iff.mp hts
    obtain ⟨hhead, hts⟩ := allFit_append_iff.mp hts
    obtain ⟨hdecl, hcond⟩ := allFit_append_iff.mp hhead
    obtain ⟨-, hts⟩ := allFit_cons_iff.mp hts
    obtain ⟨hassign, hts⟩ := allFit_append_iff.mp hts
    obtain ⟨-, hblock⟩ := allFit_cons_iff.mp hts
    exact ⟨hinit.printable hdecl, h.printable hcond, hstep.printable hassign,
      hbody.printable hblock⟩
  | _, _, .ret _ h _, hts => by
    obtain ⟨hvalue, -⟩ := allFit_append_iff.mp (allFit_cons_iff.mp hts).2
    exact h.printable hvalue
  | _, _, .call h _, hts => h.printable (allFit_append_iff.mp hts).1
  | _, _, .assign h _, hts => h.printable (allFit_append_iff.mp hts).1

theorem SpellsElse.printable : ∀ {ts no}, SpellsElse ts no → AllFit ts → Stmt.PrintableElse no
  | _, _, .none, _ => trivial
  | _, _, .some _ h, hts => h.printable (allFit_cons_iff.mp hts).2

end

theorem SpellsParams.printable {ts : List Token} {params : List Param}
    (h : SpellsParams ts params) (hts : AllFit ts) :
    ∀ param ∈ params, param.type = .int ∧ IsPlainName param.id.name := by
  induction h with
  | one hk hx =>
    obtain ⟨-, hts⟩ := allFit_cons_iff.mp hts
    obtain ⟨hname, -⟩ := allFit_cons_iff.mp hts
    exact List.forall_mem_singleton.mpr ⟨rfl, Token.isPlainName hname hx⟩
  | cons hk hx ht h ih =>
    obtain ⟨-, hts⟩ := allFit_cons_iff.mp hts
    obtain ⟨hname, hts⟩ := allFit_cons_iff.mp hts
    obtain ⟨-, hlater⟩ := allFit_cons_iff.mp hts
    exact List.forall_mem_cons.mpr ⟨⟨rfl, Token.isPlainName hname hx⟩, ih hlater⟩

theorem SpellsFunction.printable {ts : List Token} {f : Function} (h : SpellsFunction ts f)
    (hts : AllFit ts) : f.Printable := by
  cases h with
  | plain ht hx ho hc h =>
    obtain ⟨-, hts⟩ := allFit_cons_iff.mp hts
    obtain ⟨hname, hts⟩ := allFit_cons_iff.mp hts
    obtain ⟨-, hts⟩ := allFit_cons_iff.mp hts
    obtain ⟨-, hbody⟩ := allFit_cons_iff.mp hts
    exact ⟨Token.isPlainName hname hx, fun _ hp => absurd hp List.not_mem_nil, h.printable hbody⟩
  | params ht hx ho hp hc h =>
    obtain ⟨-, hts⟩ := allFit_cons_iff.mp hts
    obtain ⟨hname, hts⟩ := allFit_cons_iff.mp hts
    obtain ⟨-, hts⟩ := allFit_cons_iff.mp hts
    obtain ⟨hparams, hts⟩ := allFit_append_iff.mp hts
    obtain ⟨-, hbody⟩ := allFit_cons_iff.mp hts
    exact ⟨Token.isPlainName hname hx, hp.printable hparams, h.printable hbody⟩

theorem SpellsProgram.printable {ts : List Token} {program : Program} (h : SpellsProgram ts program)
    (hts : AllFit ts) : program.Printable := by
  induction h with
  | nil => exact fun f hf => absurd hf List.not_mem_nil
  | cons h h' ih =>
    obtain ⟨hfirst, hlater⟩ := allFit_append_iff.mp hts
    exact List.forall_mem_cons.mpr ⟨h.printable hfirst, ih hlater⟩

/-- **Whatever is read from a text can be written down again.** -/
theorem Program.printable_read (source : String) :
    (Program.read (Token.scan source)).program.Printable := by
  obtain ⟨us, hsub, hus⟩ := Program.read_keeps (Token.scan source)
  exact hus.printable fun t ht => Token.fits_of_mem_scan (hsub.subset ht)

end MiniC
