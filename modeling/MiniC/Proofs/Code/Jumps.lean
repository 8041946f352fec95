import MiniC.Proofs.Code.Linkage

/-!
# Jumps and their labels

A branch or a loop takes two labels; it marks each of them once and jumps to each of them once. A
branch only jumps ahead. A loop jumps ahead out of its body and back to its top, and there is no
other way back. None of this leaves a function, since its labels are taken while its body is
lowered. `Code.Jumps` says it of a piece of code, and each construct of the language keeps it. Main
statement: `Program.jumps_match_labels`.
-/

namespace MiniC

/-! ## 1. Jumps -/

namespace Instruction

/-- The label that the instruction jumps to. -/
def target? : Instruction → Option String
  | .goto target | .ifFalse _ target => some target
  | _ => none

/-- Whether the instruction jumps in any case. -/
def isGoto : Instruction → Bool
  | .goto _ => true
  | _ => false

/-- Whether the instruction jumps on a condition. -/
def isIfFalse : Instruction → Bool
  | .ifFalse _ _ => true
  | _ => false

end Instruction

namespace Code

/-- The labels that the code jumps to, in the order of the jumps. -/
def targets (code : Code) : List String := code.filterMap Instruction.target?

/-- The jumps of the code to a label that is marked before them, where the labels `passed` are
    marked before the code. -/
def backwardAfter (passed : List String) : Code → Code
  | [] => []
  | i :: code =>
    let later := backwardAfter (passed ++ i.label?.toList) code
    if i.target?.any (· ∈ passed) then i :: later else later

/-- **The jumps back**: those to a label that is marked before them. -/
def backward (code : Code) : Code := backwardAfter [] code

variable {a b : Code} {passed : List String}

@[simp] theorem targets_append (a b : Code) : targets (a ++ b) = targets a ++ targets b :=
  List.filterMap_append

@[simp] theorem targets_nil : targets [] = [] := rfl

theorem targets_cons (i : Instruction) (code : Code) :
    targets (i :: code) = i.target?.toList ++ targets code := by
  rw [targets, List.filterMap_cons]
  cases i.target? <;> rfl

/-- The second piece of code comes after the labels of the first. -/
theorem backwardAfter_append (passed : List String) (a b : Code) :
    backwardAfter passed (a ++ b) =
      backwardAfter passed a ++ backwardAfter (passed ++ labels a) b := by
  induction a generalizing passed with
  | nil => simp [backwardAfter]
  | cons i a ih =>
    rw [List.cons_append, backwardAfter, backwardAfter, ih, labels_cons, List.append_assoc]
    split <;> simp

/-- A jump to a label that is not marked before it does not go back. -/
theorem backwardAfter_ahead {i : Instruction} {x : String} (hi : i.target? = some x)
    (hx : x ∉ passed) (code : Code) :
    backwardAfter passed (i :: code) = backwardAfter passed code := by
  have hlabel : i.label? = none := by
    cases i <;> first | rfl | cases hi
  rw [backwardAfter, hi, hlabel, Option.any_some, if_neg (by simpa using hx)]
  exact congrArg (backwardAfter · code) (List.append_nil passed)

theorem mem_labels {x : String} {code : Code} : x ∈ labels code ↔ .label x ∈ code := by
  rw [labels, List.mem_filterMap]
  constructor
  · rintro ⟨i, hi, hx⟩
    cases i <;> cases hx
    exact hi
  · exact fun h => ⟨_, h, rfl⟩

end Code

/-! ## 2. Straight code -/

/-- The code neither jumps nor marks a label. -/
def Code.Straight (code : Code) : Prop := ∀ i ∈ code, i.target? = none ∧ i.label? = none

namespace Code.Straight

variable {a b : Code}

theorem append (ha : Straight a) (hb : Straight b) : Straight (a ++ b) :=
  List.forall_mem_append.mpr ⟨ha, hb⟩

theorem targets_eq_nil (h : Straight a) : targets a = [] :=
  List.filterMap_eq_nil_iff.mpr fun i hi => (h i hi).1

theorem labels_eq_nil (h : Straight a) : labels a = [] :=
  List.filterMap_eq_nil_iff.mpr fun i hi => (h i hi).2

theorem backwardAfter_eq_nil (h : Straight a) (passed : List String) :
    backwardAfter passed a = [] := by
  induction a generalizing passed with
  | nil => rfl
  | cons i a ih =>
    obtain ⟨⟨hi, -⟩, ha⟩ := List.forall_mem_cons.mp h
    rw [backwardAfter, hi]
    exact ih ha _

theorem countP_eq_zero (h : Straight a) {p : Instruction → Bool}
    (hp : ∀ i, p i = true → i.target?.isSome = true) : a.countP p = 0 := by
  rw [List.countP_eq_zero]
  intro i hi htest
  have hsome := hp i htest
  rw [(h i hi).1] at hsome
  cases hsome

theorem gotos_eq_zero (h : Straight a) : a.countP Instruction.isGoto = 0 := by
  refine h.countP_eq_zero fun i hi => ?_
  cases i <;> first | rfl | cases hi

theorem ifFalses_eq_zero (h : Straight a) : a.countP Instruction.isIfFalse = 0 := by
  refine h.countP_eq_zero fun i hi => ?_
  cases i <;> first | rfl | cases hi

end Code.Straight

theorem Expr.straight_lower (temps : Nat) (e : Expr) : Code.Straight (e.lower temps).code := by
  intro i hi
  have h := Expr.isComputation_of_mem_lower e hi
  cases i <;> first | exact ⟨rfl, rfl⟩ | cases h

theorem Declaration.straight_lower (supply : Supply) (decl : Declaration) :
    Code.Straight (decl.lower supply).code := by
  obtain ⟨target, init⟩ := decl
  cases init with
  | none => exact fun i hi => absurd hi List.not_mem_nil
  | some init => exact (init.straight_lower _).append (List.forall_mem_singleton.mpr ⟨rfl, rfl⟩)

theorem Assignment.straight_lower (supply : Supply) (a : Assignment) :
    Code.Straight (a.lower supply).code :=
  (a.value.straight_lower _).append (List.forall_mem_singleton.mpr ⟨rfl, rfl⟩)

/-! ## 3. What a piece of code does with its labels -/

theorem mem_labelRange {m n k : Nat} : label m ∈ labelRange n k ↔ n < m ∧ m ≤ n + k := by
  rw [labelRange, List.mem_map]
  constructor
  · rintro ⟨i, hi, heq⟩
    rw [List.mem_range'_1, label_injective heq] at hi
    omega
  · intro h
    exact ⟨m, List.mem_range'_1.mpr (by omega), rfl⟩

/-- None of the labels numbered from `n + 1` to `n + k` is in the list. -/
def Unpassed (passed : List String) (n k : Nat) : Prop :=
  ∀ m, n < m → m ≤ n + k → label m ∉ passed

namespace Unpassed

variable {passed : List String} {n k n' k' : Nat}

theorem sub (h : Unpassed passed n k) (hlo : n ≤ n') (hhi : n' + k' ≤ n + k) :
    Unpassed passed n' k' :=
  fun m hm hm' => h m (by omega) (by omega)

/-- Labels of another range are not among those asked for. -/
theorem append (h : Unpassed passed n k) {more : List String}
    (hmore : more.Perm (labelRange n' k')) (hapart : n' + k' ≤ n ∨ n + k ≤ n') :
    Unpassed (passed ++ more) n k := by
  intro m hm hm' hmem
  rcases List.mem_append.mp hmem with hmem | hmem
  · exact h m hm hm' hmem
  · have hrange := mem_labelRange.mp (hmore.mem_iff.mp hmem)
    omega

end Unpassed

/-- The jumps back to labels of these numbers. -/
def returns (tops : List Nat) : Code := tops.map fun n => .goto (label n)

theorem returns_append (tops tops' : List Nat) :
    returns (tops ++ tops') = returns tops ++ returns tops' :=
  List.map_append

/-- **The jumps of a piece of code with `k` branches and loops** that takes the labels from `n + 1`
    on: one to each of its labels, one of each kind for each branch or loop, and back only to the
    tops of loops. -/
structure Code.Jumps (code : Code) (n k : Nat) (tops : List Nat) : Prop where
  targets : (Code.targets code).Perm (labelRange n (2 * k))
  gotos : code.countP Instruction.isGoto = k
  ifFalses : code.countP Instruction.isIfFalse = k
  backward : ∀ passed, Unpassed passed n (2 * k) → Code.backwardAfter passed code = returns tops

namespace Code

variable {a b test init step body yes no : Code} {n k k' : Nat} {tops tops' : List Nat}

theorem Straight.jumps (h : Straight a) (n : Nat) : Jumps a n 0 [] where
  targets := by
    rw [h.targets_eq_nil]
    exact .nil
  gotos := h.gotos_eq_zero
  ifFalses := h.ifFalses_eq_zero
  backward passed _ := h.backwardAfter_eq_nil passed

/-- One piece of code after another. -/
theorem Jumps.append (ha : Jumps a n k tops) (hb : Jumps b (n + 2 * k) k' tops')
    (hlabels : (labels a).Perm (labelRange n (2 * k))) :
    Jumps (a ++ b) n (k + k') (tops ++ tops') where
  targets := by
    rw [targets_append, Nat.mul_add, ← labelRange_append]
    exact ha.targets.append hb.targets
  gotos := by rw [List.countP_append, ha.gotos, hb.gotos]
  ifFalses := by rw [List.countP_append, ha.ifFalses, hb.ifFalses]
  backward passed h := by
    have hlater : Unpassed (passed ++ labels a) (n + 2 * k) (2 * k') :=
      (h.sub (by omega) (by omega)).append hlabels (.inl (Nat.le_refl _))
    rw [backwardAfter_append, ha.backward passed (h.sub (Nat.le_refl n) (by omega)),
      hb.backward _ hlater, returns_append]

/-- A branch jumps to its two labels, around the jumps of its blocks, and only ahead. -/
theorem Jumps.branch (htest : Straight test) (cond : String) (hyes : Jumps yes (n + 2) k tops)
    (hlabels : (labels yes).Perm (labelRange (n + 2) (2 * k)))
    (hno : Jumps no (n + 2 + 2 * k) k' tops') :
    Jumps (test ++ [Instruction.ifFalse cond (label (n + 1))] ++ yes ++
        [Instruction.goto (label (n + 2)), Instruction.label (label (n + 1))] ++ no ++
        [Instruction.label (label (n + 2))])
      n (k + k' + 1) (tops ++ tops') where
  targets := by
    have hcount : 2 * (k + k' + 1) = 2 + 2 * k + 2 * k' := by omega
    have htwo : labelRange n 2 = [label (n + 1), label (n + 2)] := rfl
    have hblocks := (hyes.targets.append_left [label (n + 1), label (n + 2)]).append hno.targets
    rw [hcount, ← labelRange_append, ← labelRange_append, ← Nat.add_assoc n, htwo]
    refine List.Perm.trans ?_ hblocks
    rw [List.perm_iff_count]
    intro x
    simp only [targets_append, htest.targets_eq_nil, targets_cons, targets_nil,
      Instruction.target?, Option.toList, List.count_append, List.count_cons, List.count_nil]
    omega
  gotos := by
    simp [htest.gotos_eq_zero, hyes.gotos, hno.gotos, Instruction.isGoto, List.countP_cons,
      Nat.add_assoc]
  ifFalses := by
    simp [htest.ifFalses_eq_zero, hyes.ifFalses, hno.ifFalses, Instruction.isIfFalse,
      List.countP_cons, Nat.add_assoc]
  backward passed h := by
    have hone : [label (n + 1)].Perm (labelRange n 1) := .refl _
    have hotherwise : label (n + 1) ∉ passed := h (n + 1) (by omega) (by omega)
    have hpast : Unpassed (passed ++ labels yes) (n + 1) 1 :=
      (h.sub (Nat.le_succ n) (by omega)).append hlabels (.inr (Nat.le_refl _))
    have hlater : Unpassed (passed ++ labels yes ++ [label (n + 1)]) (n + 2 + 2 * k) (2 * k') :=
      ((h.sub (by omega) (by omega)).append hlabels (.inl (Nat.le_refl _))).append hone
        (.inl (by omega))
    have hifFalse : backwardAfter passed [.ifFalse cond (label (n + 1))] = [] :=
      backwardAfter_ahead rfl hotherwise []
    have hgoto : backwardAfter (passed ++ labels yes)
        [.goto (label (n + 2)), .label (label (n + 1))] = [] :=
      backwardAfter_ahead rfl (hpast (n + 2) (by omega) (by omega)) [.label (label (n + 1))]
    have hmark : ∀ passed, backwardAfter passed [.label (label (n + 2))] = [] := fun _ => rfl
    rw [List.append_assoc] at hlater
    simp only [backwardAfter_append, htest.labels_eq_nil, htest.backwardAfter_eq_nil, hifFalse,
      hgoto, hmark, labels_cons, labels_nil, Instruction.label?, Option.toList, List.append_nil,
      List.nil_append, List.append_assoc, hyes.backward passed (h.sub (by omega) (by omega)),
      hno.backward _ hlater, returns_append]

/-- A loop jumps to its two labels, around the jumps of its body, and back to its top. -/
theorem Jumps.loop (hinit : Straight init) (htest : Straight test) (cond : String)
    (hbody : Jumps body (n + 2) k tops) (hstep : Straight step) :
    Jumps (init ++ [Instruction.label (label (n + 1))] ++ test ++
        [Instruction.ifFalse cond (label (n + 2))] ++ body ++ step ++
        [Instruction.goto (label (n + 1)), Instruction.label (label (n + 2))])
      n (k + 1) (tops ++ [n + 1]) where
  targets := by
    have hcount : 2 * (k + 1) = 2 + 2 * k := by omega
    have htwo : labelRange n 2 = [label (n + 1), label (n + 2)] := rfl
    have hinside := hbody.targets.append_left [label (n + 1), label (n + 2)]
    rw [hcount, ← labelRange_append, htwo]
    refine List.Perm.trans ?_ hinside
    rw [List.perm_iff_count]
    intro x
    simp only [targets_append, hinit.targets_eq_nil, htest.targets_eq_nil, hstep.targets_eq_nil,
      targets_cons, targets_nil, Instruction.target?, Option.toList, List.count_append,
      List.count_cons, List.count_nil]
    omega
  gotos := by
    simp [hinit.gotos_eq_zero, htest.gotos_eq_zero, hbody.gotos, hstep.gotos_eq_zero,
      Instruction.isGoto, List.countP_cons]
  ifFalses := by
    simp [hinit.ifFalses_eq_zero, htest.ifFalses_eq_zero, hbody.ifFalses, hstep.ifFalses_eq_zero,
      Instruction.isIfFalse, List.countP_cons]
  backward passed h := by
    have hone : [label (n + 1)].Perm (labelRange n 1) := .refl _
    have hinside : Unpassed (passed ++ [label (n + 1)]) (n + 1) (1 + 2 * k) :=
      (h.sub (Nat.le_succ n) (by omega)).append hone (.inl (Nat.le_refl _))
    have hmark : backwardAfter passed [.label (label (n + 1))] = [] := rfl
    have hifFalse : backwardAfter (passed ++ [label (n + 1)]) [.ifFalse cond (label (n + 2))] =
        [] :=
      backwardAfter_ahead rfl (hinside (n + 2) (by omega) (by omega)) []
    -- the one label marked before the jump to it
    have hgoto : backwardAfter (passed ++ ([label (n + 1)] ++ labels body))
        [.goto (label (n + 1)), .label (label (n + 2))] = [.goto (label (n + 1))] := by
      rw [backwardAfter]
      exact if_pos (by simp [Instruction.target?])
    have hjumps := hbody.backward _ (hinside.sub (Nat.le_succ _) (by omega))
    simp only [backwardAfter_append, hinit.labels_eq_nil, hinit.backwardAfter_eq_nil,
      htest.labels_eq_nil, htest.backwardAfter_eq_nil, hstep.labels_eq_nil,
      hstep.backwardAfter_eq_nil, hmark, hifFalse, labels_cons, labels_nil, Instruction.label?,
      Option.toList, List.append_nil, List.nil_append, List.append_assoc, hgoto, hjumps,
      returns_append]
    rfl

end Code

/-! ## 4. Statements -/

mutual

/-- The number of loops in a statement. -/
def Stmt.loops : Stmt → Nat
  | .declare _ | .assign _ | .call _ _ | .ret _ _ => 0
  | .branch _ yes no => Stmt.loopsAll yes + Stmt.loopsElse no
  | .loop _ _ _ body => Stmt.loopsAll body + 1

/-- The number of loops in statements. -/
def Stmt.loopsAll : List Stmt → Nat
  | [] => 0
  | stmt :: stmts => stmt.loops + Stmt.loopsAll stmts

/-- The number of loops in an `else` block, if there is one. -/
def Stmt.loopsElse : Option (List Stmt) → Nat
  | none => 0
  | some stmts => Stmt.loopsAll stmts

end

mutual

/-- The numbers of the labels at the tops of the loops in a statement, one for each loop, in the
    order in which the loops end. Before the statement, `taken` labels are taken. -/
def Stmt.tops (taken : Nat) : Stmt → List Nat
  | .declare _ | .assign _ | .call _ _ | .ret _ _ => []
  | .branch _ yes no =>
    Stmt.topsAll (taken + 2) yes ++ Stmt.topsElse (taken + 2 + 2 * Stmt.forksAll yes) no
  | .loop _ _ _ body => Stmt.topsAll (taken + 2) body ++ [taken + 1]

/-- The same for statements. -/
def Stmt.topsAll (taken : Nat) : List Stmt → List Nat
  | [] => []
  | stmt :: stmts => stmt.tops taken ++ Stmt.topsAll (taken + 2 * stmt.forks) stmts

/-- The same for an `else` block, if there is one. -/
def Stmt.topsElse (taken : Nat) : Option (List Stmt) → List Nat
  | none => []
  | some stmts => Stmt.topsAll taken stmts

end

mutual

theorem Stmt.length_tops (taken : Nat) : (stmt : Stmt) → (stmt.tops taken).length = stmt.loops
  | .declare _ | .assign _ | .call _ _ | .ret _ _ => rfl
  | .branch _ yes no => by
    rw [Stmt.tops, Stmt.loops, List.length_append, Stmt.length_topsAll, Stmt.length_topsElse]
  | .loop _ _ _ body => by
    rw [Stmt.tops, Stmt.loops, List.length_append, Stmt.length_topsAll, List.length_singleton]

theorem Stmt.length_topsAll (taken : Nat) : (stmts : List Stmt) →
    (Stmt.topsAll taken stmts).length = Stmt.loopsAll stmts
  | [] => rfl
  | stmt :: stmts => by
    rw [Stmt.topsAll, Stmt.loopsAll, List.length_append, Stmt.length_tops, Stmt.length_topsAll]

theorem Stmt.length_topsElse (taken : Nat) : (no : Option (List Stmt)) →
    (Stmt.topsElse taken no).length = Stmt.loopsElse no
  | none => rfl
  | some stmts => Stmt.length_topsAll taken stmts

end

mutual

/-- **The jumps of a statement go to the labels it takes.** -/
theorem Stmt.jumps_lower (supply : Supply) : (stmt : Stmt) →
    Code.Jumps (stmt.lower supply).code supply.labels stmt.forks (stmt.tops supply.labels)
  | .declare decl => (decl.straight_lower supply).jumps supply.labels
  | .assign a => (a.straight_lower supply).jumps supply.labels
  | .call callee args => ((Expr.call callee args).straight_lower supply.temps).jumps supply.labels
  | .ret none line =>
    Code.Straight.jumps (List.forall_mem_singleton.mpr ⟨rfl, rfl⟩) supply.labels
  | .ret (some value) line =>
    ((value.straight_lower supply.temps).append
      (List.forall_mem_singleton.mpr ⟨rfl, rfl⟩)).jumps supply.labels
  | .branch cond yes no => by
    have hyes := Stmt.jumps_lowerAll ⟨(cond.lower supply.temps).temps, supply.labels + 2⟩ yes
    have hlabels := Stmt.labels_lowerAll ⟨(cond.lower supply.temps).temps, supply.labels + 2⟩ yes
    have hno := Stmt.jumps_lowerElse
      (Stmt.lowerAll ⟨(cond.lower supply.temps).temps, supply.labels + 2⟩ yes).supply no
    rw [(Stmt.temporaries_lowerAll _ yes).1] at hno
    rw [Stmt.lower, Stmt.forks, Stmt.tops, (Stmt.temporaries_lowerAll _ yes).1]
    exact .branch (cond.straight_lower _) _ hyes hlabels hno
  | .loop init cond step body => by
    have hbody := Stmt.jumps_lowerAll ⟨(cond.lower (init.lower supply).supply.temps).temps,
      (init.lower supply).supply.labels + 2⟩ body
    rw [(Declaration.temporaries_lower supply init).1] at hbody
    rw [Stmt.lower, Stmt.forks, Stmt.tops, (Declaration.temporaries_lower supply init).1]
    exact .loop (init.straight_lower _) (cond.straight_lower _) _ hbody (step.straight_lower _)

theorem Stmt.jumps_lowerAll (supply : Supply) : (stmts : List Stmt) →
    Code.Jumps (Stmt.lowerAll supply stmts).code supply.labels (Stmt.forksAll stmts)
      (Stmt.topsAll supply.labels stmts)
  | [] => Code.Straight.jumps (fun _ hi => absurd hi List.not_mem_nil) supply.labels
  | stmt :: stmts => by
    have hstmts := Stmt.jumps_lowerAll (stmt.lower supply).supply stmts
    rw [(Stmt.temporaries_lower supply stmt).1] at hstmts
    rw [Stmt.lowerAll, Stmt.forksAll, Stmt.topsAll, (Stmt.temporaries_lower supply stmt).1]
    exact (Stmt.jumps_lower supply stmt).append hstmts (Stmt.labels_lower supply stmt)

theorem Stmt.jumps_lowerElse (supply : Supply) : (no : Option (List Stmt)) →
    Code.Jumps (Stmt.lowerElse supply no).code supply.labels (Stmt.forksElse no)
      (Stmt.topsElse supply.labels no)
  | none => Code.Straight.jumps (fun _ hi => absurd hi List.not_mem_nil) supply.labels
  | some stmts => by
    rw [Stmt.lowerElse, Stmt.forksElse, Stmt.topsElse]
    exact Stmt.jumps_lowerAll supply stmts

end

/-! ## 5. Programs -/

namespace Function

/-- The number of branches and loops in functions. -/
def forksAll : List Function → Nat
  | [] => 0
  | f :: fs => Stmt.forksAll f.body + forksAll fs

/-- The number of loops in functions. -/
def loopsAll : List Function → Nat
  | [] => 0
  | f :: fs => Stmt.loopsAll f.body + loopsAll fs

/-- The numbers of the labels at the tops of the loops in functions, when `taken` labels are taken
    before them. -/
def topsAll (taken : Nat) : List Function → List Nat
  | [] => []
  | f :: fs => Stmt.topsAll taken f.body ++ topsAll (taken + 2 * Stmt.forksAll f.body) fs

theorem length_topsAll (fs : List Function) : ∀ taken : Nat,
    (topsAll taken fs).length = loopsAll fs := by
  induction fs with
  | nil => exact fun _ => rfl
  | cons f fs ih =>
    intro taken
    rw [topsAll, loopsAll, List.length_append, Stmt.length_topsAll, ih]

theorem supply_labels_lower (supply : Supply) (f : Function) :
    (f.lower supply).supply.labels = supply.labels + 2 * Stmt.forksAll f.body :=
  congrArg Supply.labels (Stmt.temporaries_lowerAll supply f.body).1

theorem labels_lower (supply : Supply) (f : Function) :
    (Code.labels (f.lower supply).code).Perm
      (labelRange supply.labels (2 * Stmt.forksAll f.body)) := by
  have hbody := Stmt.labels_lowerAll supply f.body
  rw [Function.lower, Code.labels_append, Code.labels_append]
  simpa [Code.labels_cons, Instruction.label?] using hbody

/-- The marks around the body of a function are straight code. -/
theorem jumps_lower (supply : Supply) (f : Function) :
    Code.Jumps (f.lower supply).code supply.labels (Stmt.forksAll f.body)
      (Stmt.topsAll supply.labels f.body) := by
  have hbegin : Code.Straight [.funcBegin f.id.name] := List.forall_mem_singleton.mpr ⟨rfl, rfl⟩
  have hend : Code.Straight [.funcEnd f.id.name] := List.forall_mem_singleton.mpr ⟨rfl, rfl⟩
  have hclosed := (Stmt.jumps_lowerAll supply f.body).append (hend.jumps _)
    (Stmt.labels_lowerAll supply f.body)
  have hopened := (hbegin.jumps supply.labels).append hclosed .nil
  rwa [Nat.add_zero, Nat.zero_add, List.append_nil, List.nil_append, ← List.append_assoc]
    at hopened

/-- The labels of the functions, each marked once. -/
theorem labels_lowerAll (fs : List Function) : ∀ supply : Supply,
    (Code.labels (lowerAll supply fs).code).Perm (labelRange supply.labels (2 * forksAll fs)) := by
  induction fs with
  | nil => exact fun _ => .nil
  | cons f fs ih =>
    intro supply
    have hlater := ih (f.lower supply).supply
    rw [supply_labels_lower] at hlater
    rw [lowerAll, forksAll, Nat.mul_add, ← labelRange_append, Code.labels_append]
    exact (f.labels_lower supply).append hlater

theorem jumps_lowerAll (fs : List Function) : ∀ supply : Supply,
    Code.Jumps (lowerAll supply fs).code supply.labels (forksAll fs)
      (topsAll supply.labels fs) := by
  induction fs with
  | nil =>
    exact fun supply => Code.Straight.jumps (fun _ hi => absurd hi List.not_mem_nil) supply.labels
  | cons f fs ih =>
    intro supply
    have hlater := ih (f.lower supply).supply
    rw [supply_labels_lower] at hlater
    exact (f.jumps_lower supply).append hlater (f.labels_lower supply)

end Function

/-- **Jumps and labels match one to one.** Let the program have `k` branches and loops. Its code
    marks the labels numbered from 1 to `2 * k`, each once, and no other; it jumps to each of these
    once and to no other; and `k` of the jumps are conditional and `k` are not. The jumps back are
    one unconditional jump for each loop, to the top of that loop. Every jump stands between the
    marks of a function, and its label stands between the same two. -/
theorem Program.jumps_match_labels (program : Program) :
    (Code.labels program.lower).Perm (labelRange 0 (2 * Function.forksAll program)) ∧
    (Code.targets program.lower).Perm (labelRange 0 (2 * Function.forksAll program)) ∧
    program.lower.countP Instruction.isIfFalse = Function.forksAll program ∧
    program.lower.countP Instruction.isGoto = Function.forksAll program ∧
    (Code.backward program.lower = (Function.topsAll 0 program).map fun n => .goto (label n)) ∧
    (Function.topsAll 0 program).length = Function.loopsAll program ∧
    ∀ (pre post : Code) (i : Instruction) (x : String), program.lower = pre ++ i :: post →
      i.target? = some x →
      ∃ f ∈ program, ∃ opened Y Z rest,
        pre = opened ++ Instruction.funcBegin f.id.name :: Y ∧
        post = Z ++ Instruction.funcEnd f.id.name :: rest ∧
        (∀ j ∈ Y ++ i :: Z, j.isMark = false) ∧ Instruction.label x ∈ Y ++ Z := by
  have hjumps := Function.jumps_lowerAll program ⟨0, 0⟩
  refine ⟨Function.labels_lowerAll program ⟨0, 0⟩, hjumps.targets, hjumps.ifFalses, hjumps.gotos,
    hjumps.backward [] fun _ _ _ => List.not_mem_nil, Function.length_topsAll program 0, ?_⟩
  intro pre post i x hsplit hi
  have hmark : i.isMark = false := by
    cases i <;> first | rfl | cases hi
  obtain ⟨before, f, after, Y, Z, rfl, hsection, rfl, rest, rfl⟩ :=
    Function.exists_section hmark program hsplit
  refine ⟨f, by simp, _, Y, Z, rest, rfl, rfl, ?_, ?_⟩
  · rw [← hsection]
    exact fun j hj => Stmt.isMark_of_mem_lowerAll f.body hj
  -- the section jumps only to labels that it takes, and it marks all of these
  · have htarget : x ∈ Code.targets (Y ++ i :: Z) :=
      List.mem_filterMap.mpr ⟨i, by simp, hi⟩
    rw [← hsection, (Stmt.jumps_lowerAll _ f.body).targets.mem_iff,
      ← (Stmt.labels_lowerAll _ f.body).mem_iff, hsection, Code.mem_labels] at htarget
    have hne : Instruction.label x ≠ i := by
      rintro rfl
      cases hi
    simpa [hne] using htarget

/-- A branch inside a loop. -/
def choiceInLoop : Program :=
  [⟨.void, ⟨"f", 1⟩, [⟨.int, ⟨"a", 1⟩⟩],
    [.loop ⟨⟨"i", 1⟩, none⟩ (.ident ⟨"a", 1⟩) ⟨⟨"a", 1⟩, .ident ⟨"i", 1⟩⟩
      [.branch (.ident ⟨"i", 1⟩) [] none]]⟩]

theorem Program.jumps_match_labels_choiceInLoop :
    (Code.targets choiceInLoop.lower).Perm ["L1", "L2", "L3", "L4"] ∧
    Code.backward choiceInLoop.lower = [.goto "L1"] ∧
    ∃ f ∈ choiceInLoop, ∃ opened Y Z rest,
      choiceInLoop.lower.take 8 = opened ++ Instruction.funcBegin f.id.name :: Y ∧
      choiceInLoop.lower.drop 9 = Z ++ Instruction.funcEnd f.id.name :: rest ∧
      (∀ j ∈ Y ++ Instruction.goto "L1" :: Z, j.isMark = false) ∧
      Instruction.label "L1" ∈ Y ++ Z := by
  obtain ⟨-, htargets, -, -, hbackward, -, hsame⟩ := Program.jumps_match_labels choiceInLoop
  exact ⟨htargets, hbackward, hsame _ _ (.goto "L1") "L1" rfl rfl⟩

end MiniC
