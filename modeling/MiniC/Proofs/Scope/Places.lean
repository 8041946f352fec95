import Mathlib
import MiniC.Proofs.Code.Freshness
import MiniC.Proofs.Scope.Surroundings

/-!
# What holds around every name

The regions around a name come from those at the start of the program by entering regions and by
binding names that are declared on the way. So a property that these two steps keep
(`Surroundings.Kept`) holds around every name of a part of a program, if it holds where the part
begins.
-/

namespace MiniC

/-- The property `P` of surroundings is kept on the way into a region, and where a name is bound to
    an entity that `Q` allows for it. -/
structure Surroundings.Kept (P : Surroundings → Prop) (Q : String → Entity → Prop) : Prop where
  enter : ∀ {around : Surroundings}, P around → P around.enter
  bind : ∀ {around : Surroundings} {x : String} {entity : Entity}, P around → Q x entity →
    P (around.bind x entity)

/-- The property holds around the occurrence, which declares only what is allowed. -/
structure Occurrence.Stands (P : Surroundings → Prop) (Q : String → Entity → Prop)
    (o : Occurrence) : Prop where
  around : P o.around
  declares : o.role = .declares → Q o.id.name .variable

section Walk

variable {P : Surroundings → Prop} {Q : String → Entity → Prop} {around : Surroundings}

/-! ## 1. Expressions -/

mutual

theorem Expr.stands_occurrences (h : P around) : (e : Expr) →
    ∀ o ∈ e.occurrences around, o.Stands P Q
  | .number _ | .string _ => fun _ ho => absurd ho List.not_mem_nil
  | .ident _ => List.forall_mem_singleton.mpr ⟨h, fun hrole => by cases hrole⟩
  | .binary _ left right => by
    rw [Expr.occurrences]
    exact List.forall_mem_append.mpr ⟨left.stands_occurrences h, right.stands_occurrences h⟩
  | .unary _ operand => by
    rw [Expr.occurrences]
    exact operand.stands_occurrences h
  | .call _ args => by
    rw [Expr.occurrences]
    refine List.forall_mem_cons.mpr ⟨⟨h, fun hrole => by cases hrole⟩, ?_⟩
    exact Expr.stands_occurrencesAll h args

theorem Expr.stands_occurrencesAll (h : P around) : (es : List Expr) →
    ∀ o ∈ Expr.occurrencesAll around es, o.Stands P Q
  | [] => fun _ ho => absurd ho List.not_mem_nil
  | e :: es => by
    rw [Expr.occurrencesAll]
    exact List.forall_mem_append.mpr ⟨e.stands_occurrences h, Expr.stands_occurrencesAll h es⟩

end

theorem Expr.stands_occurrencesOption (h : P around) (e : Option Expr) :
    ∀ o ∈ Expr.occurrencesOption around e, o.Stands P Q := by
  cases e with
  | none => exact fun _ ho => absurd ho List.not_mem_nil
  | some e => exact e.stands_occurrences h

/-! ## 2. Statements -/

variable (hkept : Surroundings.Kept P Q)

include hkept

theorem Declaration.stands_occurrences (h : P around) {decl : Declaration}
    (hname : Q decl.target.name .variable) : ∀ o ∈ decl.occurrences around, o.Stands P Q := by
  refine List.forall_mem_cons.mpr ⟨⟨h, fun _ => hname⟩, ?_⟩
  exact Expr.stands_occurrencesOption (hkept.bind h hname) decl.init

omit hkept in
theorem Assignment.stands_occurrences (h : P around) (a : Assignment) :
    ∀ o ∈ a.occurrences around, o.Stands P Q :=
  List.forall_mem_cons.mpr ⟨⟨h, fun hrole => by cases hrole⟩, a.value.stands_occurrences h⟩

theorem Stmt.kept_after (h : P around) {stmt : Stmt}
    (hnames : ∀ x ∈ stmt.declaredNames, Q x .variable) : P (stmt.after around) := by
  cases stmt with
  | declare decl => exact hkept.bind h (hnames _ List.mem_cons_self)
  | assign | call | branch | loop | ret => exact h

mutual

/-- **What is kept holds around every name of a statement**, if it holds around the statement. -/
theorem Stmt.stands_occurrences {around : Surroundings} (h : P around) : (stmt : Stmt) →
    (∀ x ∈ stmt.declaredNames, Q x .variable) → ∀ o ∈ stmt.occurrences around, o.Stands P Q
  | .declare decl, hnames =>
    Declaration.stands_occurrences hkept h (hnames _ List.mem_cons_self)
  | .assign a, _ => Assignment.stands_occurrences h a
  | .call callee args, _ => Expr.stands_occurrences h (.call callee args)
  | .ret value _, _ => Expr.stands_occurrencesOption h value
  | .branch cond yes no, hnames => by
    rw [Stmt.declaredNames, List.forall_mem_append] at hnames
    rw [Stmt.occurrences, List.forall_mem_append, List.forall_mem_append]
    exact ⟨⟨cond.stands_occurrences h,
      Stmt.stands_occurrencesAll (hkept.enter h) yes hnames.1⟩,
      Stmt.stands_occurrencesElse h no hnames.2⟩
  | .loop init cond step body, hnames => by
    rw [Stmt.declaredNames, List.forall_mem_cons] at hnames
    obtain ⟨hname, hbody⟩ := hnames
    have hinside := hkept.enter h
    have hhead := hkept.bind hinside hname
    rw [Stmt.occurrences, List.forall_mem_append, List.forall_mem_append, List.forall_mem_append]
    exact ⟨⟨⟨Declaration.stands_occurrences hkept hinside hname, cond.stands_occurrences hhead⟩,
      Assignment.stands_occurrences hhead step⟩,
      Stmt.stands_occurrencesAll (hkept.enter hhead) body hbody⟩

theorem Stmt.stands_occurrencesAll {around : Surroundings} (h : P around) :
    (stmts : List Stmt) → (∀ x ∈ Stmt.declaredNamesAll stmts, Q x .variable) →
    ∀ o ∈ Stmt.occurrencesAll around stmts, o.Stands P Q
  | [], _ => fun _ ho => absurd ho List.not_mem_nil
  | stmt :: stmts, hnames => by
    rw [Stmt.declaredNamesAll, List.forall_mem_append] at hnames
    rw [Stmt.occurrencesAll, List.forall_mem_append]
    exact ⟨Stmt.stands_occurrences h stmt hnames.1,
      Stmt.stands_occurrencesAll (Stmt.kept_after hkept h hnames.1) stmts hnames.2⟩

theorem Stmt.stands_occurrencesElse {around : Surroundings} (h : P around) :
    (no : Option (List Stmt)) → (∀ x ∈ Stmt.declaredNamesElse no, Q x .variable) →
    ∀ o ∈ Stmt.occurrencesElse around no, o.Stands P Q
  | none, _ => fun _ ho => absurd ho List.not_mem_nil
  | some stmts, hnames => by
    rw [Stmt.occurrencesElse]
    exact Stmt.stands_occurrencesAll (hkept.enter h) stmts hnames

end

/-! ## 3. Programs -/

/-- Parameters are bound one after the other. -/
theorem Ident.stands_occurrencesAll {ids : List Ident}
    (hids : ∀ id ∈ ids, Q id.name .variable) : ∀ {around : Surroundings}, P around →
    (∀ o ∈ Ident.occurrencesAll around ids, o.Stands P Q) ∧ P (around.bindVariables ids) := by
  induction ids with
  | nil => exact fun h => ⟨fun _ ho => absurd ho List.not_mem_nil, h⟩
  | cons id ids ih =>
    obtain ⟨hid, hids⟩ := List.forall_mem_cons.mp hids
    intro around h
    obtain ⟨hlater, hbound⟩ := ih hids (hkept.bind h hid)
    exact ⟨List.forall_mem_cons.mpr ⟨⟨h, fun _ => hid⟩, hlater⟩, hbound⟩

theorem Function.stands_occurrences (h : P around) {f : Function}
    (hname : Q f.id.name .function) (hnames : ∀ x ∈ f.declaredNames, Q x .variable) :
    ∀ o ∈ f.occurrences around, o.Stands P Q := by
  rw [Function.declaredNames, List.forall_mem_append, List.forall_mem_map] at hnames
  obtain ⟨hparams, hbody⟩ := hnames
  have hinside := hkept.enter (hkept.bind h hname)
  have hids : ∀ id ∈ f.params.map Param.id, Q id.name .variable := List.forall_mem_map.mpr hparams
  obtain ⟨hheader, hbound⟩ := Ident.stands_occurrencesAll hkept hids hinside
  refine List.forall_mem_cons.mpr ⟨⟨h, fun hrole => by cases hrole⟩, ?_⟩
  exact List.forall_mem_append.mpr ⟨hheader, Stmt.stands_occurrencesAll hkept hbound f.body hbody⟩

/-- **What is kept holds around every name of functions**, if it holds around them. -/
theorem Function.stands_occurrencesAll (fs : List Function)
    (hfs : ∀ f ∈ fs, Q f.id.name .function ∧ ∀ x ∈ f.declaredNames, Q x .variable) :
    ∀ {around : Surroundings}, P around →
    ∀ o ∈ Function.occurrencesAll around fs, o.Stands P Q := by
  induction fs with
  | nil => exact fun _ _ ho => absurd ho List.not_mem_nil
  | cons f fs ih =>
    obtain ⟨⟨hname, hnames⟩, hfs⟩ := List.forall_mem_cons.mp hfs
    intro around h
    exact List.forall_mem_append.mpr ⟨Function.stands_occurrences hkept h hname hnames,
      ih hfs (hkept.bind h hname)⟩

end Walk

end MiniC
