import MiniC.Proofs.Code.Freshness
import MiniC.Proofs.Code.Shadowing
import MiniC.Proofs.Grammar.Salvage
import MiniC.Proofs.Scope.Conformance
import MiniC.Proofs.Scope.Places

/-!
# Accepted code is closed

The analysis and the lowering are two walks over one tree. What the analysis has accepted has no
name without a meaning where it stands; the lowering looks at no meaning, but every word it writes
is a literal, a temporary of its own, or a name that the analysis has seen. So the code of an
accepted program can be linked: its functions have different names, a call goes to a function that
has begun before it, and every other name is a variable of the function around it or such a
function. Main statement: `Artifacts.code_closed`.
-/

namespace MiniC

/-! ## 1. What the names around a place can stand for -/

/-- The words that have a meaning in the section of a function. -/
structure Vocabulary where
  temporaries : List String
  declared : List String
  functions : List String

namespace Vocabulary

/-- The word has a meaning. -/
def Knows (v : Vocabulary) (w : String) : Prop :=
  w ∈ v.temporaries ∨ w ∈ v.declared ∨ w ∈ v.functions

/-- The word can be called. -/
def CanCall (v : Vocabulary) (w : String) : Prop := w = "printf" ∨ w ∈ v.functions

/-- The words that can be bound to an entity. -/
def Binds (v : Vocabulary) (x : String) : Entity → Prop
  | .variable => x ∈ v.declared
  | .function => v.CanCall x

end Vocabulary

namespace Surroundings

/-- The regions bind names of the vocabulary only. -/
def Within (around : Surroundings) (v : Vocabulary) : Prop :=
  ∀ region ∈ around.inner :: around.outer, ∀ binding ∈ region, v.Binds binding.1 binding.2

variable {around : Surroundings} {v : Vocabulary} {x : String} {entity : Entity}

theorem Within.enter (h : around.Within v) : around.enter.Within v := by
  refine List.forall_mem_cons.mpr ⟨?_, h⟩
  exact fun _ hbinding => absurd hbinding List.not_mem_nil

theorem Within.bind (h : around.Within v) (hx : v.Binds x entity) :
    (around.bind x entity).Within v := by
  unfold Surroundings.bind
  by_cases hbound : around.binds x = true
  · rwa [if_pos hbound]
  · rw [if_neg hbound]
    obtain ⟨hinner, houter⟩ := List.forall_mem_cons.mp h
    refine List.forall_mem_cons.mpr ⟨?_, houter⟩
    exact List.forall_mem_append.mpr ⟨hinner, List.forall_mem_singleton.mpr hx⟩

theorem Within.bindVariable (h : around.Within v) (hx : x ∈ v.declared) :
    (around.bind x .variable).Within v :=
  h.bind hx

theorem Within.bindFunction (h : around.Within v) (hx : x ∈ v.functions) :
    (around.bind x .function).Within v :=
  h.bind (.inr hx : v.CanCall x)

theorem Within.bindVariables {ids : List Ident} (h : around.Within v)
    (hids : ∀ id ∈ ids, id.name ∈ v.declared) : (around.bindVariables ids).Within v := by
  induction ids generalizing around with
  | nil => exact h
  | cons id ids ih =>
    obtain ⟨hid, hids⟩ := List.forall_mem_cons.mp hids
    exact ih (h.bindVariable hid) hids

/-- A name resolves to what the vocabulary lets it be. -/
theorem Within.of_resolve? (h : around.Within v) (hx : around.resolve? x = some entity) :
    v.Binds x entity := by
  obtain ⟨region, hregion, hlookup⟩ := List.exists_of_findSome?_eq_some hx
  obtain ⟨earlier, later, heq, -⟩ := List.lookup_eq_some_iff.mp hlookup
  refine h region hregion (x, entity) ?_
  rw [heq]
  exact List.mem_append_right _ List.mem_cons_self

end Surroundings

/-! ## 2. Accepted occurrences -/

namespace Occurrence

variable {v : Vocabulary} {o : Occurrence}

/-- The occurrence stands among names of the vocabulary, and declares only such names. -/
structure Placed (v : Vocabulary) (o : Occurrence) : Prop where
  around : o.around.Within v
  declares : o.role = .declares → o.id.name ∈ v.declared

/-- The name has the meaning that its place asks for. -/
structure Settled (v : Vocabulary) (o : Occurrence) : Prop where
  declares : o.role = .declares → o.id.name ∈ v.declared
  mentions : o.role = .mentions → o.id.name ∈ v.declared ∨ v.CanCall o.id.name
  calls : o.role = .calls → v.CanCall o.id.name

/-- A placed occurrence without a complaint is settled. -/
theorem Placed.settled (h : o.Placed v) (hfine : o.complaint? = none) : o.Settled v where
  declares := h.declares
  mentions hrole := by
    unfold complaint? at hfine
    rw [hrole] at hfine
    cases hresolve : o.around.resolve? o.id.name with
    | none => simp [hresolve] at hfine
    | some entity =>
      have hbinds := h.around.of_resolve? hresolve
      cases entity with
      | «variable» => exact .inl hbinds
      | function => exact .inr hbinds
  calls hrole := by
    unfold complaint? at hfine
    rw [hrole] at hfine
    cases hresolve : o.around.resolve? o.id.name with
    | none => simp [hresolve] at hfine
    | some entity =>
      cases entity with
      | «variable» => simp [hresolve] at hfine
      | function => exact h.around.of_resolve? hresolve

end Occurrence

theorem Surroundings.kept_within (v : Vocabulary) :
    Surroundings.Kept (fun around => around.Within v) v.Binds :=
  ⟨Within.enter, Within.bind⟩

/-- **The names of statements stand among the names around them and those declared in them.** -/
theorem Stmt.placed_occurrencesAll {v : Vocabulary} {around : Surroundings} (h : around.Within v)
    (stmts : List Stmt) (hnames : ∀ x ∈ Stmt.declaredNamesAll stmts, x ∈ v.declared) :
    ∀ o ∈ Stmt.occurrencesAll around stmts, o.Placed v := by
  intro o ho
  obtain ⟨haround, hdeclares⟩ :=
    Stmt.stands_occurrencesAll (Surroundings.kept_within v) h stmts hnames o ho
  exact ⟨haround, hdeclares⟩

/-! ## 3. The words of the code -/

/-- A number, or a text in quotes. -/
def IsLiteral (w : String) : Prop := IsNumeral w ∨ ∃ value : String, w = "\"" ++ value ++ "\""

/-- The function that the instruction calls. -/
def Instruction.callee? : Instruction → Option String
  | .call _ callee _ => some callee
  | _ => none

/-- Every word of the instruction has a meaning. -/
structure Instruction.Closed (v : Vocabulary) (i : Instruction) : Prop where
  operands : ∀ w ∈ i.operands, IsLiteral w ∨ v.Knows w
  copied : ∀ w ∈ i.copied?, v.Knows w
  callee : ∀ w ∈ i.callee?, v.CanCall w

/-- Every word of the code has a meaning. -/
def Code.Closed (v : Vocabulary) (code : Code) : Prop := ∀ i ∈ code, i.Closed v

/-- The temporaries of the code belong to the vocabulary. -/
def Vocabulary.Covers (v : Vocabulary) (code : Code) : Prop :=
  ∀ t ∈ Code.temporaries code, t ∈ v.temporaries

section Words

variable {v : Vocabulary} {a b : Code} {i : Instruction}

theorem Code.closed_append_iff : Code.Closed v (a ++ b) ↔ Code.Closed v a ∧ Code.Closed v b :=
  List.forall_mem_append

theorem Code.closed_singleton_iff : Code.Closed v [i] ↔ i.Closed v := List.forall_mem_singleton

theorem Vocabulary.covers_append_iff : v.Covers (a ++ b) ↔ v.Covers a ∧ v.Covers b := by
  unfold Covers
  rw [Code.temporaries_append, List.forall_mem_append]

/-- An instruction that copies nothing and calls nothing is closed when its operands are. -/
theorem Instruction.closed_of_operands (hcopied : i.copied? = none) (hcallee : i.callee? = none)
    (h : ∀ w ∈ i.operands, IsLiteral w ∨ v.Knows w) : i.Closed v where
  operands := h
  copied w hw := by
    rw [hcopied] at hw
    cases hw
  callee w hw := by
    rw [hcallee] at hw
    cases hw

/-- A name that is read and can be bound is known: `printf` is reserved and cannot be read. -/
theorem IsPlainName.knows {x : String} (h : IsPlainName x)
    (hx : x ∈ v.declared ∨ v.CanCall x) : v.Knows x := by
  rcases hx with hvariable | hprintf | hfunction
  · exact .inr (.inl hvariable)
  · have hreserved : x ∈ Token.keywords := by
      rw [hprintf]
      decide
    exact absurd hreserved (h.plain rfl)
  · exact .inr (.inr hfunction)

variable {around : Surroundings}

mutual

/-- The code of an expression is closed, and so is the word that holds its value. -/
theorem Expr.closed_lower (temps : Nat) : (e : Expr) → e.Printable →
    (∀ o ∈ e.occurrences around, o.Settled v) → v.Covers (e.lower temps).code →
    Code.Closed v (e.lower temps).code ∧
      (IsLiteral (e.lower temps).operand ∨ v.Knows (e.lower temps).operand)
  | .number _, hp, _, _ => ⟨fun _ hi => absurd hi List.not_mem_nil, .inl (.inl hp)⟩
  | .string value, _, _, _ => ⟨fun _ hi => absurd hi List.not_mem_nil, .inl (.inr ⟨value, rfl⟩)⟩
  | .ident id, hp, hsettled, _ => by
    have hmention := (hsettled _ List.mem_cons_self).mentions rfl
    exact ⟨fun _ hi => absurd hi List.not_mem_nil, .inr (IsPlainName.knows hp hmention)⟩
  | .binary op left right, hp, hsettled, hcovers => by
    rw [Expr.occurrences, List.forall_mem_append] at hsettled
    rw [Expr.lower, Vocabulary.covers_append_iff, Vocabulary.covers_append_iff] at hcovers
    obtain ⟨⟨hca, hcb⟩, hdest⟩ := hcovers
    obtain ⟨ha, hleft⟩ := Expr.closed_lower temps left hp.1 hsettled.1 hca
    obtain ⟨hb, hright⟩ := Expr.closed_lower _ right hp.2 hsettled.2 hcb
    rw [Expr.lower, Code.closed_append_iff, Code.closed_append_iff, Code.closed_singleton_iff]
    refine ⟨⟨⟨ha, hb⟩, Instruction.closed_of_operands rfl rfl ?_⟩, ?_⟩
    · exact List.forall_mem_cons.mpr ⟨hleft, List.forall_mem_singleton.mpr hright⟩
    · exact .inr (.inl (hdest _ List.mem_cons_self))
  | .unary op operand, hp, hsettled, hcovers => by
    rw [Expr.occurrences] at hsettled
    rw [Expr.lower, Vocabulary.covers_append_iff] at hcovers
    obtain ⟨hca, hdest⟩ := hcovers
    obtain ⟨ha, hoperand⟩ := Expr.closed_lower temps operand hp hsettled hca
    rw [Expr.lower, Code.closed_append_iff, Code.closed_singleton_iff]
    refine ⟨⟨ha, Instruction.closed_of_operands rfl rfl ?_⟩, ?_⟩
    · exact List.forall_mem_singleton.mpr hoperand
    · exact .inr (.inl (hdest _ List.mem_cons_self))
  | .call callee args, hp, hsettled, hcovers => by
    rw [Expr.occurrences, List.forall_mem_cons] at hsettled
    rw [Expr.lower, Vocabulary.covers_append_iff, Vocabulary.covers_append_iff] at hcovers
    obtain ⟨⟨hcargs, -⟩, hdest⟩ := hcovers
    obtain ⟨hargs, hwords⟩ := Expr.closed_lowerAll temps args hp.2 hsettled.2 hcargs
    rw [Expr.lower, Code.closed_append_iff, Code.closed_append_iff, Code.closed_singleton_iff]
    refine ⟨⟨⟨hargs, ?_⟩, ?_⟩, .inr (.inl (hdest _ List.mem_cons_self))⟩
    · intro i hi
      obtain ⟨w, hw, rfl⟩ := List.mem_map.mp hi
      exact Instruction.closed_of_operands rfl rfl (List.forall_mem_singleton.mpr (hwords w hw))
    · refine ⟨fun _ hw => absurd hw List.not_mem_nil, ?_, ?_⟩
      · intro w hw
        cases hw
      · intro w hw
        cases hw
        exact hsettled.1.calls rfl

theorem Expr.closed_lowerAll (temps : Nat) : (es : List Expr) → Expr.PrintableAll es →
    (∀ o ∈ Expr.occurrencesAll around es, o.Settled v) → v.Covers (Expr.lowerAll temps es).code →
    Code.Closed v (Expr.lowerAll temps es).code ∧
      ∀ w ∈ (Expr.lowerAll temps es).operands, IsLiteral w ∨ v.Knows w
  | [], _, _, _ =>
    ⟨fun _ hi => absurd hi List.not_mem_nil, fun _ hw => absurd hw List.not_mem_nil⟩
  | e :: es, hp, hsettled, hcovers => by
    rw [Expr.occurrencesAll, List.forall_mem_append] at hsettled
    rw [Expr.lowerAll, Vocabulary.covers_append_iff] at hcovers
    obtain ⟨he, hword⟩ := Expr.closed_lower temps e hp.1 hsettled.1 hcovers.1
    obtain ⟨hes, hwords⟩ := Expr.closed_lowerAll _ es hp.2 hsettled.2 hcovers.2
    rw [Expr.lowerAll, Code.closed_append_iff]
    exact ⟨⟨he, hes⟩, List.forall_mem_cons.mpr ⟨hword, hwords⟩⟩

end

/-- A copy of a computed value to a known word. -/
theorem Code.closed_copy {target : String} {a : Computed} (hcode : Code.Closed v a.code)
    (hword : IsLiteral a.operand ∨ v.Knows a.operand) (htarget : v.Knows target) :
    Code.Closed v (a.code ++ [.copy target a.operand]) := by
  refine Code.closed_append_iff.mpr ⟨hcode, Code.closed_singleton_iff.mpr ⟨?_, ?_, ?_⟩⟩
  · exact List.forall_mem_singleton.mpr hword
  · intro w hw
    cases hw
    exact htarget
  · intro w hw
    cases hw

theorem Declaration.closed_lower (supply : Supply) {decl : Declaration} (hp : decl.Printable)
    (hsettled : ∀ o ∈ decl.occurrences around, o.Settled v)
    (hcovers : v.Covers (decl.lower supply).code) : Code.Closed v (decl.lower supply).code := by
  obtain ⟨target, init⟩ := decl
  obtain ⟨hdeclared, hinit⟩ := List.forall_mem_cons.mp hsettled
  cases init with
  | none => exact fun _ hi => absurd hi List.not_mem_nil
  | some init =>
    rw [Declaration.lower, Vocabulary.covers_append_iff] at hcovers
    obtain ⟨hcode, hword⟩ := Expr.closed_lower supply.temps init (hp.init _ rfl) hinit hcovers.1
    exact Code.closed_copy hcode hword (.inr (.inl (hdeclared.declares rfl)))

theorem Assignment.closed_lower (supply : Supply) {a : Assignment} (hp : a.Printable)
    (hsettled : ∀ o ∈ a.occurrences around, o.Settled v)
    (hcovers : v.Covers (a.lower supply).code) : Code.Closed v (a.lower supply).code := by
  obtain ⟨htarget, hvalue⟩ := List.forall_mem_cons.mp hsettled
  rw [Assignment.lower, Vocabulary.covers_append_iff] at hcovers
  obtain ⟨hcode, hword⟩ := Expr.closed_lower supply.temps a.value hp.value hvalue hcovers.1
  exact Code.closed_copy hcode hword (hp.target.knows (htarget.mentions rfl))

/-- Labels and jumps have no words to know. -/
theorem Instruction.closed_jump (h : i.operands = [] ∧ i.copied? = none ∧ i.callee? = none) :
    i.Closed v := by
  obtain ⟨hoperands, hcopied, hcallee⟩ := h
  refine Instruction.closed_of_operands hcopied hcallee fun w hw => ?_
  rw [hoperands] at hw
  cases hw

mutual

/-- **The code of a statement whose names are settled is closed.** -/
theorem Stmt.closed_lower {around : Surroundings} (supply : Supply) : (stmt : Stmt) →
    stmt.Printable → (∀ o ∈ stmt.occurrences around, o.Settled v) →
    v.Covers (stmt.lower supply).code → Code.Closed v (stmt.lower supply).code
  | .declare decl, hp, hsettled, hcovers => Declaration.closed_lower supply hp hsettled hcovers
  | .assign a, hp, hsettled, hcovers => Assignment.closed_lower supply hp hsettled hcovers
  | .call callee args, hp, hsettled, hcovers =>
    (Expr.closed_lower supply.temps (.call callee args) hp hsettled hcovers).1
  | .ret none _, _, _, _ =>
    Code.closed_singleton_iff.mpr (Instruction.closed_jump ⟨rfl, rfl, rfl⟩)
  | .ret (some value) _, hp, hsettled, hcovers => by
    rw [Stmt.lower, Vocabulary.covers_append_iff] at hcovers
    obtain ⟨hcode, hword⟩ := Expr.closed_lower supply.temps value (hp _ rfl) hsettled hcovers.1
    rw [Stmt.lower, Code.closed_append_iff, Code.closed_singleton_iff]
    exact ⟨hcode, Instruction.closed_of_operands rfl rfl (List.forall_mem_singleton.mpr hword)⟩
  | .branch cond yes no, hp, hsettled, hcovers => by
    rw [Stmt.occurrences, List.forall_mem_append, List.forall_mem_append] at hsettled
    obtain ⟨⟨hscond, hsyes⟩, hsno⟩ := hsettled
    obtain ⟨hpcond, hpyes, hpno⟩ := hp
    rw [Stmt.lower] at hcovers ⊢
    simp only [Vocabulary.covers_append_iff] at hcovers
    obtain ⟨⟨⟨⟨⟨hccond, -⟩, hcyes⟩, -⟩, hcno⟩, -⟩ := hcovers
    obtain ⟨hcond, hword⟩ := Expr.closed_lower supply.temps cond hpcond hscond hccond
    have hyes := Stmt.closed_lowerAll _ yes hpyes hsyes hcyes
    have hno := Stmt.closed_lowerElse _ no hpno hsno hcno
    simp only [Code.closed_append_iff, Code.closed_singleton_iff]
    refine ⟨⟨⟨⟨⟨hcond, ?_⟩, hyes⟩, ?_⟩, hno⟩, Instruction.closed_jump ⟨rfl, rfl, rfl⟩⟩
    · exact Instruction.closed_of_operands rfl rfl (List.forall_mem_singleton.mpr hword)
    · exact List.forall_mem_cons.mpr ⟨Instruction.closed_jump ⟨rfl, rfl, rfl⟩,
        List.forall_mem_singleton.mpr (Instruction.closed_jump ⟨rfl, rfl, rfl⟩)⟩
  | .loop init cond step body, hp, hsettled, hcovers => by
    rw [Stmt.occurrences, List.forall_mem_append, List.forall_mem_append,
      List.forall_mem_append] at hsettled
    obtain ⟨⟨⟨hsinit, hscond⟩, hsstep⟩, hsbody⟩ := hsettled
    obtain ⟨hpinit, hpcond, hpstep, hpbody⟩ := hp
    rw [Stmt.lower] at hcovers ⊢
    simp only [Vocabulary.covers_append_iff] at hcovers
    obtain ⟨⟨⟨⟨⟨⟨hcinit, -⟩, hccond⟩, -⟩, hcbody⟩, hcstep⟩, -⟩ := hcovers
    have hinit := Declaration.closed_lower supply hpinit hsinit hcinit
    obtain ⟨hcond, hword⟩ := Expr.closed_lower _ cond hpcond hscond hccond
    have hbody := Stmt.closed_lowerAll _ body hpbody hsbody hcbody
    have hstep := Assignment.closed_lower _ hpstep hsstep hcstep
    simp only [Code.closed_append_iff, Code.closed_singleton_iff]
    refine ⟨⟨⟨⟨⟨⟨hinit, Instruction.closed_jump ⟨rfl, rfl, rfl⟩⟩, hcond⟩, ?_⟩, hbody⟩, hstep⟩, ?_⟩
    · exact Instruction.closed_of_operands rfl rfl (List.forall_mem_singleton.mpr hword)
    · exact List.forall_mem_cons.mpr ⟨Instruction.closed_jump ⟨rfl, rfl, rfl⟩,
        List.forall_mem_singleton.mpr (Instruction.closed_jump ⟨rfl, rfl, rfl⟩)⟩

theorem Stmt.closed_lowerAll {around : Surroundings} (supply : Supply) : (stmts : List Stmt) →
    Stmt.PrintableAll stmts → (∀ o ∈ Stmt.occurrencesAll around stmts, o.Settled v) →
    v.Covers (Stmt.lowerAll supply stmts).code →
    Code.Closed v (Stmt.lowerAll supply stmts).code
  | [], _, _, _ => fun _ hi => absurd hi List.not_mem_nil
  | stmt :: stmts, hp, hsettled, hcovers => by
    rw [Stmt.occurrencesAll, List.forall_mem_append] at hsettled
    rw [Stmt.lowerAll, Vocabulary.covers_append_iff] at hcovers
    rw [Stmt.lowerAll, Code.closed_append_iff]
    exact ⟨Stmt.closed_lower supply stmt hp.1 hsettled.1 hcovers.1,
      Stmt.closed_lowerAll _ stmts hp.2 hsettled.2 hcovers.2⟩

theorem Stmt.closed_lowerElse {around : Surroundings} (supply : Supply) :
    (no : Option (List Stmt)) → Stmt.PrintableElse no →
    (∀ o ∈ Stmt.occurrencesElse around no, o.Settled v) →
    v.Covers (Stmt.lowerElse supply no).code → Code.Closed v (Stmt.lowerElse supply no).code
  | none, _, _, _ => fun _ hi => absurd hi List.not_mem_nil
  | some stmts, hp, hsettled, hcovers => Stmt.closed_lowerAll supply stmts hp hsettled hcovers

end

end Words

/-! ## 4. Sections and what has begun -/

/-- The function that the instruction begins. -/
def Instruction.begun? : Instruction → Option String
  | .funcBegin name => some name
  | _ => none

/-- The functions that the code begins, in order. -/
def Code.begun (code : Code) : List String := code.filterMap Instruction.begun?

theorem Code.begun_append (a b : Code) : Code.begun (a ++ b) = Code.begun a ++ Code.begun b :=
  List.filterMap_append

/-- Code without marks begins nothing. -/
theorem Code.begun_eq_nil {code : Code} (h : ∀ i ∈ code, i.isMark = false) :
    Code.begun code = [] := by
  rw [Code.begun, List.filterMap_eq_nil_iff]
  intro i hi
  have hmark := h i hi
  cases i <;> first | rfl | cases hmark

/-- An instruction of two pieces of code lies in the first or in the second. -/
theorem Code.eq_append_cons_or {a b pre post : Code} {i : Instruction}
    (h : a ++ b = pre ++ i :: post) :
    (∃ later, a = pre ++ i :: later ∧ post = later ++ b) ∨
      ∃ earlier, pre = a ++ earlier ∧ b = earlier ++ i :: post := by
  rcases List.append_eq_append_iff.mp h with ⟨earlier, hpre, hb⟩ | ⟨later, ha, hpost⟩
  · exact .inr ⟨earlier, hpre, hb⟩
  · cases later with
    | nil =>
      rw [List.append_nil] at ha
      exact .inr ⟨[], by rw [List.append_nil, ha], hpost.symm⟩
    | cons j later =>
      obtain ⟨rfl, htail⟩ := List.cons.inj hpost
      exact .inl ⟨later, ha, htail⟩

namespace Function

theorem begun_lower (supply : Supply) (f : Function) :
    Code.begun (f.lower supply).code = [f.id.name] := by
  have hbody : Code.begun (Stmt.lowerAll supply f.body).code = [] :=
    Code.begun_eq_nil fun i hi => Stmt.isMark_of_mem_lowerAll f.body hi
  rw [Function.lower, Code.begun_append, Code.begun_append, hbody]
  rfl

/-- The code of functions begins them in their order. -/
theorem begun_lowerAll (fs : List Function) : ∀ supply : Supply,
    Code.begun (lowerAll supply fs).code = fs.map (·.id.name) := by
  induction fs with
  | nil => exact fun _ => rfl
  | cons f fs ih =>
    intro supply
    rw [lowerAll, Code.begun_append, begun_lower, ih]
    rfl

/-- **Every instruction that is no mark lies in the section of one function.** -/
theorem exists_section {i : Instruction} (hi : i.isMark = false) (fs : List Function) :
    ∀ {supply : Supply} {pre post : Code}, (lowerAll supply fs).code = pre ++ i :: post →
    ∃ before f after Y Z, fs = before ++ f :: after ∧
      (Stmt.lowerAll (lowerAll supply before).supply f.body).code = Y ++ i :: Z ∧
      pre = (lowerAll supply before).code ++ .funcBegin f.id.name :: Y ∧
      ∃ rest, post = Z ++ .funcEnd f.id.name :: rest := by
  induction fs with
  | nil =>
    intro supply pre post h
    cases pre <;> cases h
  | cons f fs ih =>
    intro supply pre post h
    rw [lowerAll] at h
    rcases Code.eq_append_cons_or h with ⟨later, hlower, hpost⟩ | ⟨earlier, hpre, hlater⟩
    · rw [Function.lower, List.append_assoc, List.singleton_append] at hlower
      cases pre with
      | nil =>
        obtain ⟨rfl, -⟩ := List.cons.inj hlower
        cases hi
      | cons mark Y =>
        obtain ⟨rfl, hbody⟩ := List.cons.inj hlower
        rcases Code.eq_append_cons_or hbody with ⟨Z, hsection, hend⟩ | ⟨end', -, hend⟩
        · refine ⟨[], f, fs, Y, Z, rfl, hsection, rfl, (lowerAll (f.lower supply).supply fs).code, ?_⟩
          rw [hpost, hend, List.append_assoc, List.singleton_append]
        · cases end' with
          | nil =>
            obtain ⟨rfl, -⟩ := List.cons.inj hend
            cases hi
          | cons j end' => simp at hend
    · obtain ⟨before, g, after, Y, Z, rfl, hsection, rfl, rest, rfl⟩ := ih hlater
      refine ⟨f :: before, g, after, Y, Z, rfl, hsection, ?_, rest, rfl⟩
      rw [hpre, ← List.append_assoc]
      rfl

end Function

/-! ## 5. Accepted programs -/

namespace Function

/-- The regions around a function that comes after the functions `before`. -/
def surroundingsAfter (around : Surroundings) (before : List Function) : Surroundings :=
  before.foldl (fun around g => around.bind g.id.name .function) around

theorem mem_occurrencesAll {o : Occurrence} {f : Function} (before after : List Function) :
    ∀ {around : Surroundings}, o ∈ f.occurrences (surroundingsAfter around before) →
      o ∈ occurrencesAll around (before ++ f :: after) := by
  induction before with
  | nil => exact fun h => List.mem_append_left _ h
  | cons g before ih => exact fun h => List.mem_append_right _ (ih h)

theorem within_surroundingsAfter {v : Vocabulary} (before : List Function)
    (hbefore : ∀ g ∈ before, g.id.name ∈ v.functions) :
    ∀ {around : Surroundings}, around.Within v → (surroundingsAfter around before).Within v := by
  induction before with
  | nil => exact fun h => h
  | cons g before ih =>
    obtain ⟨hg, hbefore⟩ := List.forall_mem_cons.mp hbefore
    exact fun h => ih hbefore (h.bindFunction hg)

/-- The words that have a meaning in the section `code` of a function after the functions
    `before`. -/
def vocabulary (before : List Function) (f : Function) (code : Code) : Vocabulary where
  temporaries := Code.temporaries code
  declared := f.declaredNames
  functions := (before ++ [f]).map (·.id.name)

theorem within_bodySurroundings (before : List Function) (f : Function) (code : Code) :
    (f.bodySurroundings (surroundingsAfter .initial before)).Within (f.vocabulary before code) := by
  have hinitial : Surroundings.initial.Within (f.vocabulary before code) :=
    List.forall_mem_singleton.mpr (List.forall_mem_singleton.mpr (.inl rfl))
  have hbefore : ∀ g ∈ before, g.id.name ∈ (f.vocabulary before code).functions :=
    fun g hg => List.mem_map_of_mem (List.mem_append_left _ hg)
  have hself : f.id.name ∈ (f.vocabulary before code).functions :=
    List.mem_map_of_mem (List.mem_append_right _ List.mem_cons_self)
  have hparams : ∀ id ∈ f.params.map Param.id, id.name ∈ f.declaredNames := by
    intro id hid
    obtain ⟨param, hparam, rfl⟩ := List.mem_map.mp hid
    exact List.mem_append_left _ (List.mem_map_of_mem hparam)
  have hnamed := (within_surroundingsAfter before hbefore hinitial).bindFunction hself
  exact hnamed.enter.bindVariables hparams

end Function

namespace Artifacts

variable {source : String} {artifacts : Artifacts} {before after : List Function} {f : Function}

theorem printable (h : compile source = .compiled artifacts) : artifacts.program.Printable := by
  obtain ⟨-, -, rfl⟩ := compile_eq_compiled_iff.mp h
  exact Program.printable_read source

/-- Nothing is wrong with an occurrence in an accepted program. -/
theorem complaint?_eq_none (h : compile source = .compiled artifacts) {o : Occurrence}
    (ho : o ∈ artifacts.program.occurrences) : o.complaint? = none := by
  obtain ⟨-, herrors, rfl⟩ := compile_eq_compiled_iff.mp h
  have hcomplaints := Function.diagnostics_analyzeAll (ofSource source).program .new rfl
  have hnone : Occurrence.complaints (ofSource source).program.occurrences = [] := by
    rw [Program.occurrences, ← hcomplaints]
    exact List.map_eq_nil_iff.mpr herrors
  exact List.filterMap_eq_nil_iff.mp hnone o ho

/-- **The section of a function in an accepted program is closed.** -/
theorem closed_section (h : compile source = .compiled artifacts)
    (hprogram : artifacts.program = before ++ f :: after) (supply : Supply) :
    Code.Closed (f.vocabulary before (Stmt.lowerAll supply f.body).code)
      (Stmt.lowerAll supply f.body).code := by
  have hp : f.Printable := printable h f (by rw [hprogram]; simp)
  have hwithin := f.within_bodySurroundings before (Stmt.lowerAll supply f.body).code
  have hplaced := Stmt.placed_occurrencesAll hwithin f.body fun x hx => List.mem_append_right _ hx
  have hsettled : ∀ o ∈ Stmt.occurrencesAll
      (f.bodySurroundings (Function.surroundingsAfter .initial before)) f.body,
      o.Settled (f.vocabulary before (Stmt.lowerAll supply f.body).code) := by
    intro o ho
    refine (hplaced o ho).settled (complaint?_eq_none h ?_)
    rw [Program.occurrences, hprogram]
    exact Function.mem_occurrencesAll before after
      (List.mem_cons_of_mem _ (List.mem_append_right _ ho))
  exact Stmt.closed_lowerAll supply f.body hp.body hsettled fun t ht => ht

/-- **Every instruction that is no mark is closed in the section around it.** -/
theorem exists_closed_section (h : compile source = .compiled artifacts) {pre post : Code}
    {i : Instruction} (hsplit : artifacts.code = pre ++ i :: post) (hi : i.isMark = false) :
    ∃ f ∈ artifacts.program, ∃ opened Y Z rest,
      pre = opened ++ .funcBegin f.id.name :: Y ∧ post = Z ++ .funcEnd f.id.name :: rest ∧
      (∀ j ∈ Y ++ i :: Z, j.isMark = false) ∧
      i.Closed ⟨Code.temporaries (Y ++ i :: Z), f.declaredNames, Code.begun pre⟩ := by
  rw [code_eq h, Program.lower] at hsplit
  obtain ⟨before, f, after, Y, Z, hprogram, hsection, rfl, rest, rfl⟩ :=
    Function.exists_section hi _ hsplit
  have hmarks : ∀ j ∈ Y ++ i :: Z, j.isMark = false := by
    rw [← hsection]
    exact fun j hj => Stmt.isMark_of_mem_lowerAll f.body hj
  have hbegun : Code.begun ((Function.lowerAll ⟨0, 0⟩ before).code ++ .funcBegin f.id.name :: Y) =
      (before ++ [f]).map (·.id.name) := by
    have hinside : Code.begun Y = [] :=
      Code.begun_eq_nil fun j hj => hmarks j (List.mem_append_left _ hj)
    have hstart : Code.begun (.funcBegin f.id.name :: Y) = f.id.name :: Code.begun Y := rfl
    rw [Code.begun_append, Function.begun_lowerAll, hstart, hinside, List.map_append]
    rfl
  have hclosed := closed_section h hprogram (Function.lowerAll ⟨0, 0⟩ before).supply
  rw [hsection] at hclosed
  refine ⟨f, by rw [hprogram]; simp, _, Y, Z, rest, rfl, rfl, hmarks, ?_⟩
  rw [hbegun]
  exact hclosed i (List.mem_append_right _ List.mem_cons_self)

/-- **Accepted code is closed and can be linked.** The functions that it begins have different
    names, none of them `printf`; every call is to `printf` or to a function that begins earlier;
    and every word that is copied to, or read without being a literal, stands between the marks of
    a function of the program, and is one of the temporaries there, a name declared in that
    function, or a function that begins earlier. -/
theorem code_closed (h : compile source = .compiled artifacts) :
    artifacts.code.begun.Nodup ∧ "printf" ∉ artifacts.code.begun ∧
    ∀ (pre post : Code) (i : Instruction), artifacts.code = pre ++ i :: post →
      (∀ dest callee argc, i = .call dest callee argc →
        callee = "printf" ∨ callee ∈ Code.begun pre) ∧
      ∀ w, i.copied? = some w ∨ w ∈ i.operands ∧ ¬ IsLiteral w →
        ∃ f ∈ artifacts.program, ∃ opened Y Z rest,
          pre = opened ++ .funcBegin f.id.name :: Y ∧
          post = Z ++ .funcEnd f.id.name :: rest ∧
          (∀ j ∈ Y ++ i :: Z, j.isMark = false) ∧
          (w ∈ Code.temporaries (Y ++ i :: Z) ∨ w ∈ f.declaredNames ∨ w ∈ Code.begun pre) := by
  have hbegun : artifacts.code.begun = artifacts.program.map (·.id.name) := by
    rw [code_eq h, Program.lower, Function.begun_lowerAll]
  refine ⟨?_, ?_, ?_⟩
  · rw [hbegun]
    exact nodup_names h
  · rw [hbegun]
    intro hmem
    obtain ⟨f, hf, hname⟩ := List.mem_map.mp hmem
    have hplain := (printable h f hf).name.plain rfl
    rw [hname] at hplain
    exact absurd (by decide) hplain
  · intro pre post i hsplit
    refine ⟨?_, ?_⟩
    · rintro dest callee argc rfl
      obtain ⟨f, -, opened, Y, Z, rest, -, -, -, hclosed⟩ := exists_closed_section h hsplit rfl
      exact hclosed.callee callee rfl
    · intro w hw
      have hmark : i.isMark = false := by
        cases i <;> first | rfl | simp [Instruction.copied?, Instruction.operands] at hw
      obtain ⟨f, hf, opened, Y, Z, rest, hpre, hpost, hmarks, hclosed⟩ :=
        exists_closed_section h hsplit hmark
      refine ⟨f, hf, opened, Y, Z, rest, hpre, hpost, hmarks, ?_⟩
      rcases hw with hcopied | ⟨hoperand, hname⟩
      · exact hclosed.copied w hcopied
      · exact (hclosed.operands w hoperand).resolve_left hname

/-- A function that hands the value of another to `printf`. -/
def reportedValue : String :=
  "int g(int a) \x7b return a; \x7d int f(int b) \x7b printf(\"v\", g(b)); return b; \x7d"

theorem code_closed_reportedValue :
    compile reportedValue = .compiled (.ofSource reportedValue) ∧
      (ofSource reportedValue).code.begun.Nodup ∧
      "printf" ∉ (ofSource reportedValue).code.begun ∧
      ∀ (pre post : Code) (i : Instruction),
        (ofSource reportedValue).code = pre ++ i :: post →
        ∀ dest callee argc, i = .call dest callee argc →
          callee = "printf" ∨ callee ∈ Code.begun pre := by
  have hread : Program.read (Token.scan reportedValue) =
      ⟨[⟨.int, ⟨"g", 1⟩, [⟨.int, ⟨"a", 1⟩⟩], [.ret (some (.ident ⟨"a", 1⟩)) 1]⟩,
        ⟨.int, ⟨"f", 1⟩, [⟨.int, ⟨"b", 1⟩⟩],
          [.call ⟨"printf", 1⟩ [.string "v", .call ⟨"g", 1⟩ [.ident ⟨"b", 1⟩]],
            .ret (some (.ident ⟨"b", 1⟩)) 1]⟩], [], []⟩ := by
    cbv
  obtain ⟨hcompile, -⟩ := compile_of_read hread (by cbv)
  obtain ⟨hnodup, hprintf, hwords⟩ := code_closed hcompile
  exact ⟨hcompile, hnodup, hprintf, fun pre post i hsplit => (hwords pre post i hsplit).1⟩

end Artifacts

end MiniC
