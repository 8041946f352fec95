import MiniC.Code.Lower

/-!
# What lowering takes from the supply

Each operation of the tree takes one temporary and each branch or loop takes two labels. The
temporaries appear in the code as destinations, in the order of their numbers and without a gap;
the labels appear each once. Hence no two operations share a temporary and no two marks share a
label, whatever the numbers at which a part of the program starts.
-/

namespace MiniC

/-! ## 1. The names of temporaries and labels -/

theorem toList_temp (n : Nat) : (temp n).toList = 't' :: Nat.toDigits 10 n := by
  rw [temp, String.toList_append, Nat.toString_eq_repr, Nat.toList_repr]
  rfl

theorem toList_label (n : Nat) : (label n).toList = 'L' :: Nat.toDigits 10 n := by
  rw [label, String.toList_append, Nat.toString_eq_repr, Nat.toList_repr]
  rfl

theorem toDigits_injective {m n : Nat} (h : Nat.toDigits 10 m = Nat.toDigits 10 n) : m = n := by
  have h' := congrArg (Nat.ofDigitChars 10 · 0) h
  rwa [Nat.ofDigitChars_ten_toDigits, Nat.ofDigitChars_ten_toDigits] at h'

theorem temp_injective {m n : Nat} (h : temp m = temp n) : m = n := by
  have hlist := congrArg String.toList h
  rw [toList_temp, toList_temp, List.cons.injEq] at hlist
  exact toDigits_injective hlist.2

theorem label_injective {m n : Nat} (h : label m = label n) : m = n := by
  have hlist := congrArg String.toList h
  rw [toList_label, toList_label, List.cons.injEq] at hlist
  exact toDigits_injective hlist.2

/-! ## 2. Operations and their temporaries -/

mutual

/-- The number of operations and calls in an expression. -/
def Expr.operations : Expr → Nat
  | .number _ | .string _ | .ident _ => 0
  | .binary _ left right => left.operations + right.operations + 1
  | .unary _ operand => operand.operations + 1
  | .call _ args => Expr.operationsAll args + 1

/-- The number of operations and calls in expressions. -/
def Expr.operationsAll : List Expr → Nat
  | [] => 0
  | e :: es => e.operations + Expr.operationsAll es

end

/-- The number of operations and calls in a declaration. -/
def Declaration.operations (decl : Declaration) : Nat :=
  (decl.init.map Expr.operations).getD 0

mutual

/-- The number of operations and calls in a statement. -/
def Stmt.operations : Stmt → Nat
  | .declare decl => decl.operations
  | .assign a => a.value.operations
  | .call _ args => Expr.operationsAll args + 1
  | .ret value _ => (value.map Expr.operations).getD 0
  | .branch cond yes no =>
    cond.operations + Stmt.operationsAll yes + Stmt.operationsElse no
  | .loop init cond step body =>
    init.operations + cond.operations + Stmt.operationsAll body + step.value.operations

/-- The number of operations and calls in statements. -/
def Stmt.operationsAll : List Stmt → Nat
  | [] => 0
  | stmt :: stmts => stmt.operations + Stmt.operationsAll stmts

/-- The number of operations and calls in an `else` block, if there is one. -/
def Stmt.operationsElse : Option (List Stmt) → Nat
  | none => 0
  | some stmts => Stmt.operationsAll stmts

end

/-- The number of operations and calls in a function. -/
def Function.operations (f : Function) : Nat := Stmt.operationsAll f.body

/-- The number of operations and calls in functions. -/
def Function.operationsAll : List Function → Nat
  | [] => 0
  | f :: fs => f.operations + Function.operationsAll fs

/-- The temporary that the instruction puts its result into. -/
def Instruction.temporary? : Instruction → Option String
  | .binary dest _ _ _ | .unary dest _ _ | .call dest _ _ => some dest
  | _ => none

/-- The temporaries of the code, in order. -/
def Code.temporaries (code : Code) : List String := code.filterMap Instruction.temporary?

/-- Temporaries `n + 1` to `n + k`. -/
def tempRange (n k : Nat) : List String := (List.range' (n + 1) k).map temp

theorem mem_tempRange {n k : Nat} {x : String} :
    x ∈ tempRange n k ↔ ∃ i, n < i ∧ i ≤ n + k ∧ x = temp i := by
  rw [tempRange, List.mem_map]
  constructor
  · intro h
    obtain ⟨i, hi, rfl⟩ := h
    rw [List.mem_range'_1] at hi
    exact ⟨i, by omega, by omega, rfl⟩
  · intro h
    obtain ⟨i, hlo, hhi, rfl⟩ := h
    exact ⟨i, List.mem_range'_1.mpr ⟨by omega, by omega⟩, rfl⟩

theorem tempRange_append (n j k : Nat) :
    tempRange n j ++ tempRange (n + j) k = tempRange n (j + k) := by
  rw [tempRange, tempRange, tempRange, ← List.map_append, Nat.add_right_comm n j 1]
  rw [List.range'_append_1]

theorem tempRange_succ (n k : Nat) : tempRange n k ++ [temp (n + k + 1)] = tempRange n (k + 1) :=
  tempRange_append n k 1

namespace Code

@[simp] theorem temporaries_nil : temporaries [] = [] := rfl

@[simp] theorem temporaries_append (a b : Code) :
    temporaries (a ++ b) = temporaries a ++ temporaries b :=
  List.filterMap_append

theorem temporaries_cons (i : Instruction) (code : Code) :
    temporaries (i :: code) = i.temporary?.toList ++ temporaries code := by
  rw [temporaries, List.filterMap_cons]
  cases i.temporary? <;> rfl

theorem temporaries_params (words : List String) :
    temporaries (words.map Instruction.param) = [] := by
  induction words with
  | nil => rfl
  | cons w words ih => exact ih

end Code

mutual

/-- **The operations of an expression take the next temporaries, in order.** -/
theorem Expr.temporaries_lower (temps : Nat) : (e : Expr) →
    (e.lower temps).temps = temps + e.operations ∧
      Code.temporaries (e.lower temps).code = tempRange temps e.operations
  | .number _ | .string _ | .ident _ => ⟨rfl, rfl⟩
  | .binary op left right => by
    obtain ⟨hleft, hleft'⟩ := Expr.temporaries_lower temps left
    obtain ⟨hright, hright'⟩ := Expr.temporaries_lower (left.lower temps).temps right
    rw [Expr.lower, Expr.operations]
    refine ⟨?_, ?_⟩
    · show (right.lower (left.lower temps).temps).temps + 1 = _
      rw [hright, hleft]
      omega
    rw [Code.temporaries_append, Code.temporaries_append, hleft', hright', hright, hleft,
      tempRange_append, ← tempRange_succ]
    rw [Nat.add_assoc temps]
    rfl
  | .unary op operand => by
    obtain ⟨hoperand, hoperand'⟩ := Expr.temporaries_lower temps operand
    rw [Expr.lower, Expr.operations]
    refine ⟨by simp only [hoperand]; omega, ?_⟩
    rw [Code.temporaries_append, hoperand', hoperand, ← tempRange_succ]
    rfl
  | .call callee args => by
    obtain ⟨hargs, hargs'⟩ := Expr.temporaries_lowerAll temps args
    rw [Expr.lower, Expr.operations]
    refine ⟨by simp only [hargs]; omega, ?_⟩
    rw [Code.temporaries_append, Code.temporaries_append, hargs', Code.temporaries_params, hargs,
      List.append_nil, ← tempRange_succ]
    rfl

theorem Expr.temporaries_lowerAll (temps : Nat) : (es : List Expr) →
    (Expr.lowerAll temps es).temps = temps + Expr.operationsAll es ∧
      Code.temporaries (Expr.lowerAll temps es).code = tempRange temps (Expr.operationsAll es)
  | [] => ⟨rfl, rfl⟩
  | e :: es => by
    obtain ⟨he, he'⟩ := Expr.temporaries_lower temps e
    obtain ⟨hes, hes'⟩ := Expr.temporaries_lowerAll (e.lower temps).temps es
    rw [Expr.lowerAll, Expr.operationsAll]
    refine ⟨by rw [hes, he, Nat.add_assoc], ?_⟩
    rw [Code.temporaries_append, he', hes', he, tempRange_append]

end

theorem Declaration.temporaries_lower (supply : Supply) (decl : Declaration) :
    (decl.lower supply).supply = ⟨supply.temps + decl.operations, supply.labels⟩ ∧
      Code.temporaries (decl.lower supply).code = tempRange supply.temps decl.operations := by
  obtain ⟨target, init⟩ := decl
  cases init with
  | none => exact ⟨rfl, rfl⟩
  | some init =>
    obtain ⟨htemps, hcode⟩ := Expr.temporaries_lower supply.temps init
    refine ⟨congrArg (Supply.mk · supply.labels) htemps, ?_⟩
    show Code.temporaries ((init.lower supply.temps).code ++ [.copy _ _]) = _
    rw [Code.temporaries_append, hcode]
    exact List.append_nil _

theorem Assignment.temporaries_lower (supply : Supply) (a : Assignment) :
    (a.lower supply).supply = ⟨supply.temps + a.value.operations, supply.labels⟩ ∧
      Code.temporaries (a.lower supply).code = tempRange supply.temps a.value.operations := by
  obtain ⟨htemps, hcode⟩ := Expr.temporaries_lower supply.temps a.value
  refine ⟨congrArg (Supply.mk · supply.labels) htemps, ?_⟩
  show Code.temporaries ((a.value.lower supply.temps).code ++ [.copy _ _]) = _
  rw [Code.temporaries_append, hcode]
  exact List.append_nil _

/-! ## 3. Branches and loops and their labels -/

mutual

/-- The number of branches and loops in a statement. -/
def Stmt.forks : Stmt → Nat
  | .declare _ | .assign _ | .call _ _ | .ret _ _ => 0
  | .branch _ yes no => Stmt.forksAll yes + Stmt.forksElse no + 1
  | .loop _ _ _ body => Stmt.forksAll body + 1

/-- The number of branches and loops in statements. -/
def Stmt.forksAll : List Stmt → Nat
  | [] => 0
  | stmt :: stmts => stmt.forks + Stmt.forksAll stmts

/-- The number of branches and loops in an `else` block, if there is one. -/
def Stmt.forksElse : Option (List Stmt) → Nat
  | none => 0
  | some stmts => Stmt.forksAll stmts

end

mutual

/-- **The operations of a statement take the next temporaries, in order**, and its branches and
    loops the next labels. -/
theorem Stmt.temporaries_lower (supply : Supply) : (stmt : Stmt) →
    (stmt.lower supply).supply =
        ⟨supply.temps + stmt.operations, supply.labels + 2 * stmt.forks⟩ ∧
      Code.temporaries (stmt.lower supply).code = tempRange supply.temps stmt.operations
  | .declare decl => Declaration.temporaries_lower supply decl
  | .assign a => Assignment.temporaries_lower supply a
  | .call callee args => by
    obtain ⟨htemps, hcode⟩ := Expr.temporaries_lower supply.temps (.call callee args)
    exact ⟨congrArg (Supply.mk · supply.labels) htemps, hcode⟩
  | .ret none line => ⟨rfl, rfl⟩
  | .ret (some value) line => by
    obtain ⟨htemps, hcode⟩ := Expr.temporaries_lower supply.temps value
    refine ⟨congrArg (Supply.mk · supply.labels) htemps, ?_⟩
    show Code.temporaries ((value.lower supply.temps).code ++ [.ret _]) = _
    rw [Code.temporaries_append, hcode]
    exact List.append_nil _
  | .branch cond yes no => by
    obtain ⟨hcond, hcond'⟩ := Expr.temporaries_lower supply.temps cond
    obtain ⟨hyes, hyes'⟩ :=
      Stmt.temporaries_lowerAll ⟨(cond.lower supply.temps).temps, supply.labels + 2⟩ yes
    obtain ⟨hno, hno'⟩ :=
      Stmt.temporaries_lowerElse
        (Stmt.lowerAll ⟨(cond.lower supply.temps).temps, supply.labels + 2⟩ yes).supply no
    rw [Stmt.lower, Stmt.operations, Stmt.forks]
    refine ⟨?_, ?_⟩
    · show (Stmt.lowerElse _ no).supply = _
      rw [hno, hyes, hcond]
      simp only [Supply.mk.injEq]
      omega
    · simp only [Code.temporaries_append, hcond', hyes', hno']
      rw [hyes, hcond, ← tempRange_append, ← tempRange_append]
      simp [Code.temporaries_cons, Instruction.temporary?, Nat.add_assoc]
  | .loop init cond step body => by
    obtain ⟨hinit, hinit'⟩ := Declaration.temporaries_lower supply init
    obtain ⟨hcond, hcond'⟩ := Expr.temporaries_lower (init.lower supply).supply.temps cond
    obtain ⟨hbody, hbody'⟩ :=
      Stmt.temporaries_lowerAll ⟨(cond.lower (init.lower supply).supply.temps).temps,
        (init.lower supply).supply.labels + 2⟩ body
    obtain ⟨hstep, hstep'⟩ :=
      Assignment.temporaries_lower (Stmt.lowerAll
        ⟨(cond.lower (init.lower supply).supply.temps).temps,
          (init.lower supply).supply.labels + 2⟩ body).supply step
    rw [Stmt.lower, Stmt.operations, Stmt.forks]
    refine ⟨?_, ?_⟩
    · show (step.lower _).supply = _
      rw [hstep, hbody, hcond, hinit]
      simp only [Supply.mk.injEq]
      omega
    · simp only [Code.temporaries_append, hinit', hcond', hbody', hstep']
      rw [hbody, hcond, hinit, ← tempRange_append, ← tempRange_append, ← tempRange_append]
      simp [Code.temporaries_cons, Instruction.temporary?, Nat.add_assoc]

theorem Stmt.temporaries_lowerAll (supply : Supply) : (stmts : List Stmt) →
    (Stmt.lowerAll supply stmts).supply =
        ⟨supply.temps + Stmt.operationsAll stmts, supply.labels + 2 * Stmt.forksAll stmts⟩ ∧
      Code.temporaries (Stmt.lowerAll supply stmts).code =
        tempRange supply.temps (Stmt.operationsAll stmts)
  | [] => ⟨rfl, rfl⟩
  | stmt :: stmts => by
    obtain ⟨hstmt, hstmt'⟩ := Stmt.temporaries_lower supply stmt
    obtain ⟨hstmts, hstmts'⟩ := Stmt.temporaries_lowerAll (stmt.lower supply).supply stmts
    rw [Stmt.lowerAll, Stmt.operationsAll, Stmt.forksAll]
    refine ⟨?_, ?_⟩
    · show (Stmt.lowerAll _ stmts).supply = _
      rw [hstmts, hstmt]
      simp only [Supply.mk.injEq]
      omega
    · rw [Code.temporaries_append, hstmt', hstmts', hstmt, tempRange_append]

theorem Stmt.temporaries_lowerElse (supply : Supply) : (no : Option (List Stmt)) →
    (Stmt.lowerElse supply no).supply =
        ⟨supply.temps + Stmt.operationsElse no, supply.labels + 2 * Stmt.forksElse no⟩ ∧
      Code.temporaries (Stmt.lowerElse supply no).code =
        tempRange supply.temps (Stmt.operationsElse no)
  | none => ⟨rfl, rfl⟩
  | some stmts => by
    rw [Stmt.lowerElse, Stmt.operationsElse, Stmt.forksElse]
    exact Stmt.temporaries_lowerAll supply stmts

end

/-! ## 4. The labels of the code -/

/-- The label that the instruction marks. -/
def Instruction.label? : Instruction → Option String
  | .label name => some name
  | _ => none

/-- The labels that the code marks, in order. -/
def Code.labels (code : Code) : List String := code.filterMap Instruction.label?

/-- Labels `n + 1` to `n + k`. -/
def labelRange (n k : Nat) : List String := (List.range' (n + 1) k).map label

theorem nodup_labelRange (n k : Nat) : (labelRange n k).Nodup :=
  List.Pairwise.map label (fun _ _ hne heq => hne (label_injective heq)) List.nodup_range'

theorem labelRange_append (n j k : Nat) :
    labelRange n j ++ labelRange (n + j) k = labelRange n (j + k) := by
  rw [labelRange, labelRange, labelRange, ← List.map_append, Nat.add_right_comm n j 1]
  rw [List.range'_append_1]

/-- The two labels of a branch or loop, which stand around the labels inside it, come first. -/
theorem perm_fork_labels (n : Nat) (inner later : List String) :
    (inner ++ [label (n + 1)] ++ later ++ [label (n + 2)]).Perm
      (labelRange n 2 ++ inner ++ later) := by
  rw [List.perm_iff_count]
  intro x
  have htwo : labelRange n 2 = [label (n + 1), label (n + 2)] := rfl
  simp only [htwo, List.count_append, List.count_cons, List.count_nil]
  omega

/-- Whether the instruction only computes: it can stand in the code of an expression. -/
def Instruction.isComputation : Instruction → Bool
  | .binary _ _ _ _ | .unary _ _ _ | .param _ | .call _ _ _ => true
  | _ => false

mutual

theorem Expr.isComputation_of_mem_lower {temps : Nat} {i : Instruction} : (e : Expr) →
    i ∈ (e.lower temps).code → i.isComputation = true
  | .number _, h | .string _, h | .ident _, h => by
    rw [Expr.lower] at h
    cases h
  | .binary op left right, h => by
    rw [Expr.lower, List.mem_append, List.mem_append, List.mem_singleton] at h
    rcases h with (h | h) | rfl
    · exact Expr.isComputation_of_mem_lower left h
    · exact Expr.isComputation_of_mem_lower right h
    · rfl
  | .unary op operand, h => by
    rw [Expr.lower, List.mem_append, List.mem_singleton] at h
    rcases h with h | rfl
    · exact Expr.isComputation_of_mem_lower operand h
    · rfl
  | .call callee args, h => by
    rw [Expr.lower, List.mem_append, List.mem_append, List.mem_singleton, List.mem_map] at h
    rcases h with (h | ⟨word, -, rfl⟩) | rfl
    · exact Expr.isComputation_of_mem_lowerAll args h
    · rfl
    · rfl

theorem Expr.isComputation_of_mem_lowerAll {temps : Nat} {i : Instruction} : (es : List Expr) →
    i ∈ (Expr.lowerAll temps es).code → i.isComputation = true
  | [], h => by
    rw [Expr.lowerAll] at h
    cases h
  | e :: es, h => by
    rw [Expr.lowerAll, List.mem_append] at h
    rcases h with h | h
    · exact Expr.isComputation_of_mem_lower e h
    · exact Expr.isComputation_of_mem_lowerAll es h

end

namespace Code

@[simp] theorem labels_append (a b : Code) : labels (a ++ b) = labels a ++ labels b :=
  List.filterMap_append

theorem labels_cons (i : Instruction) (code : Code) :
    labels (i :: code) = i.label?.toList ++ labels code := by
  rw [labels, List.filterMap_cons]
  cases i.label? <;> rfl

@[simp] theorem labels_nil : labels [] = [] := rfl

end Code

@[simp] theorem Expr.labels_lower (temps : Nat) (e : Expr) :
    Code.labels (e.lower temps).code = [] := by
  rw [Code.labels, List.filterMap_eq_nil_iff]
  intro i hi
  have h := Expr.isComputation_of_mem_lower e hi
  cases i <;> first | rfl | cases h

@[simp] theorem Declaration.labels_lower (supply : Supply) (decl : Declaration) :
    Code.labels (decl.lower supply).code = [] := by
  obtain ⟨target, init⟩ := decl
  cases init with
  | none => rfl
  | some init => simp [Declaration.lower, Code.labels_cons, Instruction.label?]

@[simp] theorem Assignment.labels_lower (supply : Supply) (a : Assignment) :
    Code.labels (a.lower supply).code = [] := by
  simp [Assignment.lower, Code.labels_cons, Instruction.label?]

mutual

/-- **The branches and loops of a statement mark the next labels, each once.** -/
theorem Stmt.labels_lower (supply : Supply) : (stmt : Stmt) →
    (Code.labels (stmt.lower supply).code).Perm (labelRange supply.labels (2 * stmt.forks))
  | .declare decl => by simp [Stmt.lower, Stmt.forks, labelRange]
  | .assign a => by simp [Stmt.lower, Stmt.forks, labelRange]
  | .call callee args => by simp [Stmt.lower, Stmt.forks, labelRange]
  | .ret none line => .nil
  | .ret (some value) line => by
    simp [Stmt.lower, Stmt.forks, labelRange, Code.labels_cons, Instruction.label?]
  | .branch cond yes no => by
    have hyes :=
      Stmt.labels_lowerAll ⟨(cond.lower supply.temps).temps, supply.labels + 2⟩ yes
    have hno := Stmt.labels_lowerElse
      (Stmt.lowerAll ⟨(cond.lower supply.temps).temps, supply.labels + 2⟩ yes).supply no
    rw [(Stmt.temporaries_lowerAll _ yes).1] at hno
    rw [Stmt.lower, Stmt.forks, show 2 * (Stmt.forksAll yes + Stmt.forksElse no + 1) =
      2 + 2 * Stmt.forksAll yes + 2 * Stmt.forksElse no by omega, ← labelRange_append,
      ← labelRange_append]
    simp only [Code.labels_append, Expr.labels_lower, Code.labels_cons, Instruction.label?,
      Code.labels_nil, Option.toList, List.nil_append, List.append_nil]
    refine (perm_fork_labels supply.labels _ _).trans ?_
    rw [(Stmt.temporaries_lowerAll _ yes).1, ← Nat.add_assoc supply.labels]
    exact (hyes.append_left _).append hno
  | .loop init cond step body => by
    have hbody := Stmt.labels_lowerAll ⟨(cond.lower (init.lower supply).supply.temps).temps,
        (init.lower supply).supply.labels + 2⟩ body
    rw [(Declaration.temporaries_lower supply init).1] at hbody
    rw [Stmt.lower, Stmt.forks, show 2 * (Stmt.forksAll body + 1) = 2 + 2 * Stmt.forksAll body by
      omega, ← labelRange_append]
    simp only [Code.labels_append, Expr.labels_lower, Declaration.labels_lower,
      Assignment.labels_lower, Code.labels_cons, Instruction.label?, Code.labels_nil,
      Option.toList, List.nil_append, List.append_nil,
      (Declaration.temporaries_lower supply init).1]
    exact (perm_fork_labels supply.labels [] _).trans (hbody.append_left _)

theorem Stmt.labels_lowerAll (supply : Supply) : (stmts : List Stmt) →
    (Code.labels (Stmt.lowerAll supply stmts).code).Perm
      (labelRange supply.labels (2 * Stmt.forksAll stmts))
  | [] => .nil
  | stmt :: stmts => by
    have hstmts := Stmt.labels_lowerAll (stmt.lower supply).supply stmts
    rw [(Stmt.temporaries_lower supply stmt).1] at hstmts
    rw [Stmt.lowerAll, Stmt.forksAll, Nat.mul_add, ← labelRange_append, Code.labels_append,
      (Stmt.temporaries_lower supply stmt).1]
    exact (Stmt.labels_lower supply stmt).append hstmts

theorem Stmt.labels_lowerElse (supply : Supply) : (no : Option (List Stmt)) →
    (Code.labels (Stmt.lowerElse supply no).code).Perm
      (labelRange supply.labels (2 * Stmt.forksElse no))
  | none => .nil
  | some stmts => by
    rw [Stmt.lowerElse, Stmt.forksElse]
    exact Stmt.labels_lowerAll supply stmts

end

/-- No label is marked twice. -/
theorem Stmt.nodup_labels_lowerAll (supply : Supply) (stmts : List Stmt) :
    (Code.labels (Stmt.lowerAll supply stmts).code).Nodup :=
  (Stmt.labels_lowerAll supply stmts).nodup_iff.mpr (nodup_labelRange _ _)

/-! ## 5. The marks of functions -/

/-- Whether the instruction marks the beginning or the end of a function. -/
def Instruction.isMark : Instruction → Bool
  | .funcBegin _ | .funcEnd _ => true
  | _ => false

theorem Instruction.isMark_eq_false_of_isComputation {i : Instruction}
    (h : i.isComputation = true) : i.isMark = false := by
  cases i <;> first | rfl | cases h

theorem Expr.isMark_of_mem_lower {temps : Nat} {e : Expr} {i : Instruction}
    (h : i ∈ (e.lower temps).code) : i.isMark = false :=
  Instruction.isMark_eq_false_of_isComputation (Expr.isComputation_of_mem_lower e h)

theorem Declaration.isMark_of_mem_lower {supply : Supply} {decl : Declaration} {i : Instruction}
    (h : i ∈ (decl.lower supply).code) : i.isMark = false := by
  obtain ⟨target, init⟩ := decl
  cases init with
  | none => cases h
  | some init =>
    rw [Declaration.lower, List.mem_append, List.mem_singleton] at h
    rcases h with h | rfl
    · exact Expr.isMark_of_mem_lower h
    · rfl

theorem Assignment.isMark_of_mem_lower {supply : Supply} {a : Assignment} {i : Instruction}
    (h : i ∈ (a.lower supply).code) : i.isMark = false := by
  rw [Assignment.lower, List.mem_append, List.mem_singleton] at h
  rcases h with h | rfl
  · exact Expr.isMark_of_mem_lower h
  · rfl

mutual

theorem Stmt.isMark_of_mem_lower {supply : Supply} {i : Instruction} : (stmt : Stmt) →
    i ∈ (stmt.lower supply).code → i.isMark = false
  | .declare decl, h => Declaration.isMark_of_mem_lower h
  | .assign a, h => Assignment.isMark_of_mem_lower h
  | .call callee args, h => Expr.isMark_of_mem_lower h
  | .ret none line, h => by
    rw [Stmt.lower, List.mem_singleton] at h
    rw [h]
    rfl
  | .ret (some value) line, h => by
    rw [Stmt.lower, List.mem_append, List.mem_singleton] at h
    rcases h with h | rfl
    · exact Expr.isMark_of_mem_lower h
    · rfl
  | .branch cond yes no, h => by
    rw [Stmt.lower] at h
    simp only [List.mem_append, List.mem_cons, List.not_mem_nil, or_false] at h
    rcases h with ((((h | rfl) | h) | rfl | rfl) | h) | rfl
    · exact Expr.isMark_of_mem_lower h
    · rfl
    · exact Stmt.isMark_of_mem_lowerAll yes h
    · rfl
    · rfl
    · exact Stmt.isMark_of_mem_lowerElse no h
    · rfl
  | .loop init cond step body, h => by
    rw [Stmt.lower] at h
    simp only [List.mem_append, List.mem_cons, List.not_mem_nil, or_false] at h
    rcases h with (((((h | rfl) | h) | rfl) | h) | h) | rfl | rfl
    · exact Declaration.isMark_of_mem_lower h
    · rfl
    · exact Expr.isMark_of_mem_lower h
    · rfl
    · exact Stmt.isMark_of_mem_lowerAll body h
    · exact Assignment.isMark_of_mem_lower h
    · rfl
    · rfl

theorem Stmt.isMark_of_mem_lowerAll {supply : Supply} {i : Instruction} : (stmts : List Stmt) →
    i ∈ (Stmt.lowerAll supply stmts).code → i.isMark = false
  | [], h => by
    rw [Stmt.lowerAll] at h
    cases h
  | stmt :: stmts, h => by
    rw [Stmt.lowerAll, List.mem_append] at h
    rcases h with h | h
    · exact Stmt.isMark_of_mem_lower stmt h
    · exact Stmt.isMark_of_mem_lowerAll stmts h

theorem Stmt.isMark_of_mem_lowerElse {supply : Supply} {i : Instruction} :
    (no : Option (List Stmt)) → i ∈ (Stmt.lowerElse supply no).code → i.isMark = false
  | none, h => by
    rw [Stmt.lowerElse] at h
    cases h
  | some stmts, h => by
    rw [Stmt.lowerElse] at h
    exact Stmt.isMark_of_mem_lowerAll stmts h

end

end MiniC
