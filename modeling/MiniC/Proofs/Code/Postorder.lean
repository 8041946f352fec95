import MiniC.Proofs.Code.Shadowing
import MiniC.Proofs.Execution.Mirror

/-!
# Operations in post-order

Each operator and each call of a program is computed by one instruction, after what it is applied
to. In post-order, with the parts of a loop in the order in which they run, the nodes of the tree
are the instructions that compute, and their results are `t1`, `t2`, … in this order. A result waits
in its temporary until the instruction of the node above it reads it, and only computations come in
between; the result of a call that is a statement waits for nobody. `Code.Yields` says this of the
code of values and `Code.Settles` of the code of statements. Main statement:
`Program.operations_in_postorder`.
-/

namespace MiniC

/-! ## 1. The nodes of a program -/

/-- What a node computes with: an operator, or the function that it calls. -/
inductive Operator where
  | binary (op : BinaryOp)
  | unary (op : UnaryOp)
  | call (callee : String)
  deriving DecidableEq, Repr

/-- A node of the tree that computes a value. -/
structure Node where
  operator : Operator
  /-- The node is a statement, so nothing is done with its value. -/
  discarded : Bool
  deriving DecidableEq, Repr

mutual

/-- The nodes of an expression in post-order, from left to right. -/
def Expr.nodes : Expr → List Node
  | .number _ | .string _ | .ident _ => []
  | .binary op left right => left.nodes ++ right.nodes ++ [⟨.binary op, false⟩]
  | .unary op operand => operand.nodes ++ [⟨.unary op, false⟩]
  | .call callee args => Expr.nodesAll args ++ [⟨.call callee.name, false⟩]

/-- The nodes of expressions, one after the other. -/
def Expr.nodesAll : List Expr → List Node
  | [] => []
  | e :: es => e.nodes ++ Expr.nodesAll es

end

/-- The nodes of an expression that may be absent. -/
def Expr.nodesOption : Option Expr → List Node
  | none => []
  | some e => e.nodes

mutual

/-- The nodes of a statement in post-order. The body of a loop comes before its step. -/
def Stmt.nodes : Stmt → List Node
  | .declare decl => Expr.nodesOption decl.init
  | .assign a => a.value.nodes
  | .call callee args => Expr.nodesAll args ++ [⟨.call callee.name, true⟩]
  | .ret value _ => Expr.nodesOption value
  | .branch cond yes no => cond.nodes ++ Stmt.nodesAll yes ++ Stmt.nodesElse no
  | .loop init cond step body =>
    Expr.nodesOption init.init ++ cond.nodes ++ Stmt.nodesAll body ++ step.value.nodes

/-- The nodes of statements, one after the other. -/
def Stmt.nodesAll : List Stmt → List Node
  | [] => []
  | stmt :: stmts => stmt.nodes ++ Stmt.nodesAll stmts

/-- The nodes of an `else` block, if there is one. -/
def Stmt.nodesElse : Option (List Stmt) → List Node
  | none => []
  | some stmts => Stmt.nodesAll stmts

end

/-- **The nodes of a program**, in post-order within each of its functions. -/
def Program.nodes (program : Program) : List Node := program.flatMap fun f => Stmt.nodesAll f.body

mutual

theorem Expr.length_nodes : (e : Expr) → e.nodes.length = e.operations
  | .number _ | .string _ | .ident _ => rfl
  | .binary op left right => by
    rw [Expr.nodes, Expr.operations, List.length_append, List.length_append, left.length_nodes,
      right.length_nodes]
    rfl
  | .unary op operand => by
    rw [Expr.nodes, Expr.operations, List.length_append, operand.length_nodes]
    rfl
  | .call callee args => by
    rw [Expr.nodes, Expr.operations, List.length_append, Expr.length_nodesAll args]
    rfl

theorem Expr.length_nodesAll : (es : List Expr) →
    (Expr.nodesAll es).length = Expr.operationsAll es
  | [] => rfl
  | e :: es => by
    rw [Expr.nodesAll, Expr.operationsAll, List.length_append, e.length_nodes,
      Expr.length_nodesAll es]

end

theorem Expr.length_nodesOption (e : Option Expr) :
    (Expr.nodesOption e).length = (e.map Expr.operations).getD 0 := by
  cases e with
  | none => rfl
  | some e => exact e.length_nodes

mutual

theorem Stmt.length_nodes : (stmt : Stmt) → stmt.nodes.length = stmt.operations
  | .declare decl => Expr.length_nodesOption decl.init
  | .assign a => a.value.length_nodes
  | .call callee args => by
    rw [Stmt.nodes, Stmt.operations, List.length_append, Expr.length_nodesAll args]
    rfl
  | .ret value line => Expr.length_nodesOption value
  | .branch cond yes no => by
    rw [Stmt.nodes, Stmt.operations, List.length_append, List.length_append, cond.length_nodes,
      Stmt.length_nodesAll yes, Stmt.length_nodesElse no]
  | .loop init cond step body => by
    rw [Stmt.nodes, Stmt.operations, List.length_append, List.length_append, List.length_append,
      Expr.length_nodesOption, cond.length_nodes, Stmt.length_nodesAll body,
      step.value.length_nodes]
    rfl

theorem Stmt.length_nodesAll : (stmts : List Stmt) →
    (Stmt.nodesAll stmts).length = Stmt.operationsAll stmts
  | [] => rfl
  | stmt :: stmts => by
    rw [Stmt.nodesAll, Stmt.operationsAll, List.length_append, stmt.length_nodes,
      Stmt.length_nodesAll stmts]

theorem Stmt.length_nodesElse : (no : Option (List Stmt)) →
    (Stmt.nodesElse no).length = Stmt.operationsElse no
  | none => rfl
  | some stmts => Stmt.length_nodesAll stmts

end

/-! ## 2. One instruction for each node -/

/-- What the instruction computes with. -/
def Instruction.operator? : Instruction → Option Operator
  | .binary _ _ op _ => some (.binary op)
  | .unary _ op _ => some (.unary op)
  | .call _ callee _ => some (.call callee)
  | _ => none

/-- For an instruction that computes, where it puts the result and what it computes with. -/
def Instruction.computed? (i : Instruction) : Option (String × Operator) :=
  i.temporary?.bind fun dest => i.operator?.map fun operator => (dest, operator)

/-- The operators of the code, in order. -/
def Code.operators (code : Code) : List Operator := code.filterMap Instruction.operator?

/-- An instruction that puts a result into a temporary computes it, and the other way round. -/
theorem Code.filterMap_computed? (code : Code) :
    code.filterMap Instruction.computed? = (Code.temporaries code).zip (Code.operators code) := by
  induction code with
  | nil => rfl
  | cons i code ih =>
    cases i with
    | binary dest left op right => exact congrArg ((dest, .binary op) :: ·) ih
    | unary dest op operand => exact congrArg ((dest, .unary op) :: ·) ih
    | call dest callee argc => exact congrArg ((dest, .call callee) :: ·) ih
    | copy | param | label | goto | ifFalse | funcBegin | funcEnd | ret => exact ih

namespace Code

@[simp] theorem operators_nil : operators [] = [] := rfl

@[simp] theorem operators_append (a b : Code) : operators (a ++ b) = operators a ++ operators b :=
  List.filterMap_append

@[simp] theorem operators_cons (i : Instruction) (code : Code) :
    operators (i :: code) = i.operator?.toList ++ operators code := by
  rw [operators, List.filterMap_cons]
  cases i.operator? <;> rfl

@[simp] theorem operators_params (words : List String) :
    operators (words.map Instruction.param) = [] := by
  induction words with
  | nil => rfl
  | cons w words ih => exact ih

end Code

mutual

theorem Expr.operators_lower (temps : Nat) : (e : Expr) →
    Code.operators (e.lower temps).code = e.nodes.map Node.operator
  | .number _ | .string _ | .ident _ => rfl
  | .binary op left right => by
    have hleft := Expr.operators_lower temps left
    have hright := Expr.operators_lower (left.lower temps).temps right
    simp [Expr.lower, Expr.nodes, hleft, hright, Instruction.operator?]
  | .unary op operand => by
    have hoperand := Expr.operators_lower temps operand
    simp [Expr.lower, Expr.nodes, hoperand, Instruction.operator?]
  | .call callee args => by
    have hargs := Expr.operators_lowerAll temps args
    simp [Expr.lower, Expr.nodes, hargs, Instruction.operator?]

theorem Expr.operators_lowerAll (temps : Nat) : (es : List Expr) →
    Code.operators (Expr.lowerAll temps es).code = (Expr.nodesAll es).map Node.operator
  | [] => rfl
  | e :: es => by
    have he := Expr.operators_lower temps e
    have hes := Expr.operators_lowerAll (e.lower temps).temps es
    simp [Expr.lowerAll, Expr.nodesAll, he, hes]

end

theorem Declaration.operators_lower (supply : Supply) (decl : Declaration) :
    Code.operators (decl.lower supply).code = (Expr.nodesOption decl.init).map Node.operator := by
  obtain ⟨target, init⟩ := decl
  cases init with
  | none => rfl
  | some init =>
    simp [Declaration.lower, Expr.operators_lower, Expr.nodesOption, Instruction.operator?]

theorem Assignment.operators_lower (supply : Supply) (a : Assignment) :
    Code.operators (a.lower supply).code = a.value.nodes.map Node.operator := by
  simp [Assignment.lower, Expr.operators_lower, Instruction.operator?]

mutual

/-- **The code of a statement computes its nodes in post-order.** -/
theorem Stmt.operators_lower (supply : Supply) : (stmt : Stmt) →
    Code.operators (stmt.lower supply).code = stmt.nodes.map Node.operator
  | .declare decl => Declaration.operators_lower supply decl
  | .assign a => Assignment.operators_lower supply a
  | .call callee args => by
    have hcall := Expr.operators_lower supply.temps (.call callee args)
    simpa [Stmt.lower, Stmt.nodes, Expr.nodes] using hcall
  | .ret none line => rfl
  | .ret (some value) line => by
    simp [Stmt.lower, Stmt.nodes, Expr.nodesOption, Expr.operators_lower, Instruction.operator?]
  | .branch cond yes no => by
    simp [Stmt.lower, Stmt.nodes, Expr.operators_lower, Stmt.operators_lowerAll _ yes,
      Stmt.operators_lowerElse _ no, Instruction.operator?]
  | .loop init cond step body => by
    simp [Stmt.lower, Stmt.nodes, Declaration.operators_lower, Expr.operators_lower,
      Stmt.operators_lowerAll _ body, Assignment.operators_lower, Instruction.operator?]

theorem Stmt.operators_lowerAll (supply : Supply) : (stmts : List Stmt) →
    Code.operators (Stmt.lowerAll supply stmts).code = (Stmt.nodesAll stmts).map Node.operator
  | [] => rfl
  | stmt :: stmts => by
    simp [Stmt.lowerAll, Stmt.nodesAll, Stmt.operators_lower supply stmt,
      Stmt.operators_lowerAll _ stmts]

theorem Stmt.operators_lowerElse (supply : Supply) : (no : Option (List Stmt)) →
    Code.operators (Stmt.lowerElse supply no).code = (Stmt.nodesElse no).map Node.operator
  | none => rfl
  | some stmts => Stmt.operators_lowerAll supply stmts

end

/-! ## 3. Reading temporaries -/

namespace Code

/-- The words that the code reads, in order. -/
def reads (code : Code) : List String := code.flatMap Instruction.operands

@[simp] theorem reads_nil : reads [] = [] := rfl

@[simp] theorem reads_append (a b : Code) : reads (a ++ b) = reads a ++ reads b :=
  List.flatMap_append

@[simp] theorem reads_cons (i : Instruction) (code : Code) :
    reads (i :: code) = i.operands ++ reads code := rfl

@[simp] theorem reads_params (words : List String) :
    reads (words.map Instruction.param) = words := by
  induction words with
  | nil => rfl
  | cons w words ih => exact congrArg (w :: ·) ih

/-- **The code reads `x` once**, after the instruction that puts a result into `x`, and only
    computations come between the two. -/
structure ReadOnce (code : Code) (x : String) : Prop where
  once : (reads code).count x = 1
  after : ∃ pre d mid i post, code = pre ++ d :: (mid ++ i :: post) ∧ d.temporary? = some x ∧
    x ∈ i.operands ∧ ∀ j ∈ mid, j.isComputation = true

/-- The code puts a result into `x` and does not read `x` up to there. -/
def Sets (code : Code) (x : String) : Prop :=
  ∃ pre d post, code = pre ++ d :: post ∧ d.temporary? = some x ∧ x ∉ reads (pre ++ [d])

variable {a b : Code} {x : String}

theorem ReadOnce.append_left (h : ReadOnce b x) (ha : x ∉ reads a) : ReadOnce (a ++ b) x where
  once := by rw [reads_append, List.count_append, List.count_eq_zero.mpr ha, h.once]
  after := by
    obtain ⟨pre, d, mid, i, post, rfl, hrest⟩ := h.after
    exact ⟨a ++ pre, d, mid, i, post, by rw [List.append_assoc], hrest⟩

theorem ReadOnce.append_right (h : ReadOnce a x) (hb : x ∉ reads b) : ReadOnce (a ++ b) x where
  once := by rw [reads_append, List.count_append, List.count_eq_zero.mpr hb, h.once]
  after := by
    obtain ⟨pre, d, mid, i, post, rfl, hrest⟩ := h.after
    exact ⟨pre, d, mid, i, post ++ b, by simp, hrest⟩

theorem Sets.append_left (h : Sets b x) (ha : x ∉ reads a) : Sets (a ++ b) x := by
  obtain ⟨pre, d, post, rfl, hd, hpre⟩ := h
  refine ⟨a ++ pre, d, post, by rw [List.append_assoc], hd, ?_⟩
  rw [List.append_assoc, reads_append]
  exact List.not_mem_append ha hpre

theorem Sets.append_right (h : Sets a x) (b : Code) : Sets (a ++ b) x := by
  obtain ⟨pre, d, post, rfl, hd, hpre⟩ := h
  exact ⟨pre, d, post ++ b, by rw [List.append_assoc, List.cons_append], hd, hpre⟩

/-- A temporary that computations set is read once by them or by an instruction after them, if it is
    read once at all. -/
theorem Sets.readOnce (h : Sets a x) (ha : ∀ i ∈ a, i.isComputation = true)
    (last : Option Instruction) (hcount : (reads (a ++ last.toList)).count x = 1) :
    ReadOnce (a ++ last.toList) x where
  once := hcount
  after := by
    obtain ⟨pre, d, post, rfl, hd, hpre⟩ := h
    -- the one read is not up to `d`, so it comes in `post` or is the last instruction
    have hsplit : pre ++ d :: post ++ last.toList = (pre ++ [d]) ++ (post ++ last.toList) := by
      simp
    have hread : x ∈ reads (pre ++ [d]) ++ reads (post ++ last.toList) := by
      rw [← reads_append, ← hsplit]
      exact List.count_pos_iff.mp (hcount ▸ Nat.one_pos)
    obtain ⟨i, hi, hx⟩ := List.mem_flatMap.mp ((List.mem_append.mp hread).resolve_left hpre)
    rcases List.mem_append.mp hi with hi | hi
    · obtain ⟨mid, rest, rfl⟩ := List.append_of_mem hi
      refine ⟨pre, d, mid, i, rest ++ last.toList, by simp, hd, hx, fun j hj => ha j ?_⟩
      simp [hj]
    · rw [Option.mem_toList] at hi
      refine ⟨pre, d, post, i, [], by simp [Option.mem_def.mp hi], hd, hx, fun j hj => ha j ?_⟩
      simp [hj]

/-- **What computing values leaves behind.** The code only computes, and sets the temporaries
    numbered from `n + 1` to `n + k`; each of them has been read once, or it is one of the words
    that hold the values. -/
structure Yields (code : Code) (words : List String) (n k : Nat) : Prop where
  computes : ∀ i ∈ code, i.isComputation = true
  within : ∀ j, temp j ∈ reads code ++ words → n < j ∧ j ≤ n + k
  once : ∀ j, n < j → j ≤ n + k → (reads code ++ words).count (temp j) = 1
  sets : ∀ j, n < j → j ≤ n + k → Sets code (temp j)

variable {words words' : List String} {n k k' : Nat}

theorem Yields.not_mem (h : Yields a words n k) {j : Nat} (hj : j ≤ n ∨ n + k < j) :
    temp j ∉ reads a ++ words := by
  intro hmem
  have hrange := h.within j hmem
  omega

theorem yields_nil (n : Nat) : Yields [] [] n 0 where
  computes _ hi := absurd hi List.not_mem_nil
  within _ hj := absurd hj List.not_mem_nil
  once j hlo hhi := by omega
  sets j hlo hhi := by omega

/-- A literal and a name of a variable need no code. -/
theorem yields_word {w : String} (h : ∀ j, w ≠ temp j) (n : Nat) : Yields [] [w] n 0 where
  computes _ hi := absurd hi List.not_mem_nil
  within j hj := absurd (List.mem_singleton.mp hj).symm (h j)
  once j hlo hhi := by omega
  sets j hlo hhi := by omega

/-- Values computed one after the other. -/
theorem Yields.append (ha : Yields a words n k) (hb : Yields b words' (n + k) k') :
    Yields (a ++ b) (words ++ words') n (k + k') where
  computes := List.forall_mem_append.mpr ⟨ha.computes, hb.computes⟩
  within j hj := by
    have hmem : temp j ∈ reads a ++ words ∨ temp j ∈ reads b ++ words' := by
      simp only [reads_append, List.mem_append] at hj ⊢
      tauto
    rcases hmem with hmem | hmem
    · have := ha.within j hmem
      omega
    · have := hb.within j hmem
      omega
  once j hlo hhi := by
    have hsum : (reads (a ++ b) ++ (words ++ words')).count (temp j) =
        (reads a ++ words).count (temp j) + (reads b ++ words').count (temp j) := by
      simp only [reads_append, List.count_append]
      omega
    -- each part reads only its own temporaries
    rw [hsum]
    by_cases hj : j ≤ n + k
    · rw [ha.once j hlo hj, List.count_eq_zero.mpr (hb.not_mem (.inl hj))]
    · rw [hb.once j (by omega) (by omega), List.count_eq_zero.mpr (ha.not_mem (.inr (by omega)))]
  sets j hlo hhi := by
    by_cases hj : j ≤ n + k
    · exact (ha.sets j hlo hj).append_right b
    · have hunread := ha.not_mem (j := j) (.inr (by omega))
      exact (hb.sets j (by omega) (by omega)).append_left fun hmem =>
        hunread (List.mem_append_left _ hmem)

/-- The instructions `c` and `d` read the values, and `d` puts a value computed from them into the
    next temporary. -/
theorem Yields.compute (ha : Yields a words n k) {c : Code} {d : Instruction}
    (hcomputes : ∀ i ∈ c ++ [d], i.isComputation = true) (hreads : reads (c ++ [d]) = words)
    (hd : d.temporary? = some (temp (n + k + 1))) :
    Yields (a ++ (c ++ [d])) [temp (n + k + 1)] n (k + 1) where
  computes := List.forall_mem_append.mpr ⟨ha.computes, hcomputes⟩
  within j hj := by
    rw [reads_append, hreads, List.mem_append, List.mem_singleton] at hj
    rcases hj with hj | hj
    · have := ha.within j hj
      omega
    · have := temp_injective hj
      omega
  once j hlo hhi := by
    rw [reads_append, hreads, List.count_append, List.count_singleton]
    by_cases hj : j ≤ n + k
    · have hne : temp (n + k + 1) ≠ temp j := fun heq => by
        have := temp_injective heq
        omega
      rw [ha.once j hlo hj, if_neg (by simpa using hne)]
    · have hj' : j = n + k + 1 := by omega
      subst hj'
      rw [List.count_eq_zero.mpr (ha.not_mem (.inr (by omega))), if_pos (by simp)]
  sets j hlo hhi := by
    by_cases hj : j ≤ n + k
    · exact (ha.sets j hlo hj).append_right _
    · have hj' : j = n + k + 1 := by omega
      subst hj'
      refine ⟨a ++ c, d, [], by rw [List.append_assoc], hd, ?_⟩
      rw [List.append_assoc, reads_append, hreads]
      exact ha.not_mem (.inr (by omega))

end Code

/-! ## 4. The values of expressions -/

mutual

/-- The names and the numbers that are the values of an expression. -/
def Expr.leaves : Expr → List String
  | .number text => [text]
  | .string _ => []
  | .ident id => [id.name]
  | .binary _ left right => left.leaves ++ right.leaves
  | .unary _ operand => operand.leaves
  | .call _ args => Expr.leavesAll args

/-- The names and the numbers that are the values of expressions. -/
def Expr.leavesAll : List Expr → List String
  | [] => []
  | e :: es => e.leaves ++ Expr.leavesAll es

end

theorem quoted_ne_temp (value : String) (n : Nat) : "\"" ++ value ++ "\"" ≠ temp n := by
  intro heq
  have hlist := congrArg String.toList heq
  rw [toList_temp] at hlist
  simp at hlist

mutual

/-- **The temporaries of an expression are read once, and its value is held.** -/
theorem Expr.yields_lower (temps : Nat) : (e : Expr) → (∀ w ∈ e.leaves, spellsTemp w = false) →
    Code.Yields (e.lower temps).code [(e.lower temps).operand] temps e.operations
  | .number text, h => Code.yields_word (ne_temp_of_spellsTemp (h text List.mem_cons_self)) temps
  | .string value, _ => Code.yields_word (quoted_ne_temp value) temps
  | .ident id, h => Code.yields_word (ne_temp_of_spellsTemp (h id.name List.mem_cons_self)) temps
  | .binary op left right, h => by
    obtain ⟨hl, hr⟩ := List.forall_mem_append.mp h
    have hleft := Expr.yields_lower temps left hl
    have hright := Expr.yields_lower (left.lower temps).temps right hr
    rw [(Expr.temporaries_lower temps left).1] at hright
    rw [Expr.lower, Expr.operations, (Expr.temporaries_lower _ right).1,
      (Expr.temporaries_lower temps left).1, Nat.add_assoc temps]
    exact (hleft.append hright).compute (c := []) (List.forall_mem_singleton.mpr rfl) rfl rfl
  | .unary op operand, h => by
    have hoperand := Expr.yields_lower temps operand h
    rw [Expr.lower, Expr.operations, (Expr.temporaries_lower temps operand).1]
    exact hoperand.compute (c := []) (List.forall_mem_singleton.mpr rfl) rfl rfl
  | .call callee args, h => by
    have hargs := Expr.yields_lowerAll temps args h
    rw [Expr.lower, Expr.operations, (Expr.temporaries_lowerAll temps args).1, List.append_assoc]
    refine hargs.compute (List.forall_mem_append.mpr ⟨?_, List.forall_mem_singleton.mpr rfl⟩) ?_ rfl
    · intro i hi
      obtain ⟨w, -, rfl⟩ := List.mem_map.mp hi
      rfl
    · rw [Code.reads_append, Code.reads_params]
      exact List.append_nil _

theorem Expr.yields_lowerAll (temps : Nat) : (es : List Expr) →
    (∀ w ∈ Expr.leavesAll es, spellsTemp w = false) →
    Code.Yields (Expr.lowerAll temps es).code (Expr.lowerAll temps es).operands temps
      (Expr.operationsAll es)
  | [], _ => Code.yields_nil temps
  | e :: es, h => by
    obtain ⟨hfirst, hrest⟩ := List.forall_mem_append.mp h
    have he := Expr.yields_lower temps e hfirst
    have hes := Expr.yields_lowerAll (e.lower temps).temps es hrest
    rw [(Expr.temporaries_lower temps e).1] at hes
    rw [Expr.lowerAll, Expr.operationsAll, (Expr.temporaries_lower temps e).1]
    exact he.append hes

end

/-! ## 5. The temporaries of statements -/

/-- **What becomes of the value of a node** in `x`: it is read once, unless it is discarded. -/
structure Code.Treats (code : Code) (node : Node) (x : String) : Prop where
  kept : node.discarded = false → Code.ReadOnce code x
  discarded : node.discarded = true → x ∉ Code.reads code

/-- **The code settles the nodes**, whose results are in the temporaries from `n + 1` on: it treats
    the value of each as it should and reads no other temporary. -/
structure Code.Settles (code : Code) (n : Nat) (nodes : List Node) : Prop where
  within : ∀ j, temp j ∈ Code.reads code → n < j ∧ j ≤ n + nodes.length
  treats : ∀ k node, nodes[k]? = some node → code.Treats node (temp (n + k + 1))

namespace Code

variable {a b : Code} {x word : String} {node : Node} {n m k : Nat} {nodes nodes' : List Node}

theorem Treats.append_left (h : Treats b node x) (ha : x ∉ reads a) : Treats (a ++ b) node x where
  kept hkept := (h.kept hkept).append_left ha
  discarded hdiscarded := by
    rw [reads_append]
    exact List.not_mem_append ha (h.discarded hdiscarded)

theorem Treats.append_right (h : Treats a node x) (hb : x ∉ reads b) : Treats (a ++ b) node x where
  kept hkept := (h.kept hkept).append_right hb
  discarded hdiscarded := by
    rw [reads_append]
    exact List.not_mem_append (h.discarded hdiscarded) hb

/-- A value that is not discarded is read once. -/
theorem ReadOnce.treats (h : ReadOnce a x) (hkept : node.discarded = false) : Treats a node x where
  kept _ := h
  discarded hdiscarded := by
    rw [hkept] at hdiscarded
    cases hdiscarded

/-- Code that reads nothing. -/
theorem settles_nil (h : reads a = []) (n : Nat) : Settles a n [] where
  within j hj := by
    rw [h] at hj
    cases hj
  treats k node hnode := by cases hnode

/-- One piece of code after another. -/
theorem Settles.append (ha : Settles a n nodes) (hb : Settles b m nodes')
    (hm : m = n + nodes.length) : Settles (a ++ b) n (nodes ++ nodes') where
  within j hj := by
    rw [reads_append, List.mem_append] at hj
    rw [List.length_append]
    rcases hj with hj | hj
    · have := ha.within j hj
      omega
    · have := hb.within j hj
      omega
  treats k node hnode := by
    by_cases hk : k < nodes.length
    · rw [List.getElem?_append_left hk] at hnode
      refine (ha.treats k node hnode).append_right fun hmem => ?_
      have := hb.within _ hmem
      omega
    · rw [List.getElem?_append_right (by omega)] at hnode
      have hplace : n + k + 1 = m + (k - nodes.length) + 1 := by omega
      rw [hplace]
      refine (hb.treats _ node hnode).append_left fun hmem => ?_
      have := ha.within _ hmem
      omega

/-- Labels, jumps and marks may follow. -/
theorem Settles.append_silent (ha : Settles a n nodes) (hb : reads b = []) :
    Settles (a ++ b) n nodes := by
  have hboth := ha.append (settles_nil hb (n + nodes.length)) rfl
  rwa [List.append_nil] at hboth

/-- The value of an expression is read by the instruction after its code. -/
theorem Yields.settles (h : Yields a [word] n k) {i : Instruction} (hi : i.operands = [word])
    (hlength : nodes.length = k) (hkept : ∀ node ∈ nodes, node.discarded = false) :
    Settles (a ++ [i]) n nodes where
  within j hj := by
    rw [reads_append, reads_cons, reads_nil, hi, List.append_nil] at hj
    rw [hlength]
    exact h.within j hj
  treats j node hnode := by
    have hj : j < nodes.length := (List.getElem?_eq_some_iff.mp hnode).1
    have hcount := h.once (n + j + 1) (by omega) (by omega)
    have hset := h.sets (n + j + 1) (by omega) (by omega)
    refine ReadOnce.treats (hset.readOnce h.computes (some i) ?_)
      (hkept node (List.mem_of_getElem? hnode))
    rw [Option.toList_some, reads_append, reads_cons, reads_nil, hi, List.append_nil]
    exact hcount

/-- The value of the last node is discarded. -/
theorem Yields.settles_discarded (h : Yields a [temp (n + k + 1)] n (k + 1))
    (hlength : nodes.length = k) (hkept : ∀ node ∈ nodes, node.discarded = false)
    (hlast : node.discarded = true) : Settles a n (nodes ++ [node]) where
  within j hj := by
    rw [List.length_append, hlength]
    exact h.within j (List.mem_append_left _ hj)
  treats j found hfound := by
    have hj : j < (nodes ++ [node]).length := (List.getElem?_eq_some_iff.mp hfound).1
    rw [List.length_append, List.length_singleton, hlength] at hj
    have hcount := h.once (n + j + 1) (by omega) (by omega)
    rw [List.count_append, List.count_singleton] at hcount
    by_cases hjk : j < k
    · have hne : temp (n + k + 1) ≠ temp (n + j + 1) := fun heq => by
        have := temp_injective heq
        omega
      have hset := h.sets (n + j + 1) (by omega) (by omega)
      rw [if_neg (by simpa using hne)] at hcount
      rw [List.getElem?_append_left (by omega)] at hfound
      have honce := hset.readOnce h.computes none (by simpa using hcount)
      rw [Option.toList_none, List.append_nil] at honce
      exact honce.treats (hkept found (List.mem_of_getElem? hfound))
    · have hjk' : j = k := by omega
      subst hjk'
      rw [if_pos (by simp)] at hcount
      rw [List.getElem?_append_right (by omega), hlength, Nat.sub_self] at hfound
      cases hfound
      refine ⟨fun hkept => ?_, fun _ => List.count_eq_zero.mp (by omega)⟩
      rw [hlast] at hkept
      cases hkept

end Code

mutual

theorem Expr.discarded_of_mem_nodes {node : Node} : (e : Expr) → node ∈ e.nodes →
    node.discarded = false
  | .number _, h | .string _, h | .ident _, h => by cases h
  | .binary op left right, h => by
    rw [Expr.nodes, List.mem_append, List.mem_append, List.mem_singleton] at h
    rcases h with (h | h) | rfl
    · exact Expr.discarded_of_mem_nodes left h
    · exact Expr.discarded_of_mem_nodes right h
    · rfl
  | .unary op operand, h => by
    rw [Expr.nodes, List.mem_append, List.mem_singleton] at h
    rcases h with h | rfl
    · exact Expr.discarded_of_mem_nodes operand h
    · rfl
  | .call callee args, h => by
    rw [Expr.nodes, List.mem_append, List.mem_singleton] at h
    rcases h with h | rfl
    · exact Expr.discarded_of_mem_nodesAll args h
    · rfl

theorem Expr.discarded_of_mem_nodesAll {node : Node} : (es : List Expr) →
    node ∈ Expr.nodesAll es → node.discarded = false
  | [], h => by cases h
  | e :: es, h => by
    rw [Expr.nodesAll, List.mem_append] at h
    rcases h with h | h
    · exact Expr.discarded_of_mem_nodes e h
    · exact Expr.discarded_of_mem_nodesAll es h

end

/-- The code of an expression and the instruction that reads its value settle its nodes. -/
theorem Expr.settles_lower (temps : Nat) (e : Expr) (h : ∀ w ∈ e.leaves, spellsTemp w = false)
    {i : Instruction} (hi : i.operands = [(e.lower temps).operand]) :
    Code.Settles ((e.lower temps).code ++ [i]) temps e.nodes :=
  (e.yields_lower temps h).settles hi e.length_nodes fun _ => e.discarded_of_mem_nodes

/-- The names and the numbers of an expression that may be absent. -/
def Expr.leavesOption : Option Expr → List String
  | none => []
  | some e => e.leaves

theorem Declaration.settles_lower (supply : Supply) (decl : Declaration)
    (h : ∀ w ∈ Expr.leavesOption decl.init, spellsTemp w = false) :
    Code.Settles (decl.lower supply).code supply.temps (Expr.nodesOption decl.init) := by
  obtain ⟨target, init⟩ := decl
  cases init with
  | none => exact Code.settles_nil rfl supply.temps
  | some init => exact init.settles_lower supply.temps h rfl

theorem Assignment.settles_lower (supply : Supply) (a : Assignment)
    (h : ∀ w ∈ a.value.leaves, spellsTemp w = false) :
    Code.Settles (a.lower supply).code supply.temps a.value.nodes :=
  a.value.settles_lower supply.temps h rfl

mutual

/-- The names and the numbers that are values in a statement. -/
def Stmt.leaves : Stmt → List String
  | .declare decl => Expr.leavesOption decl.init
  | .assign a => a.value.leaves
  | .call _ args => Expr.leavesAll args
  | .ret value _ => Expr.leavesOption value
  | .branch cond yes no => cond.leaves ++ Stmt.leavesAll yes ++ Stmt.leavesElse no
  | .loop init cond step body =>
    Expr.leavesOption init.init ++ cond.leaves ++ Stmt.leavesAll body ++ step.value.leaves

/-- The names and the numbers that are values in statements. -/
def Stmt.leavesAll : List Stmt → List String
  | [] => []
  | stmt :: stmts => stmt.leaves ++ Stmt.leavesAll stmts

/-- The names and the numbers that are values in an `else` block, if there is one. -/
def Stmt.leavesElse : Option (List Stmt) → List String
  | none => []
  | some stmts => Stmt.leavesAll stmts

end

/-- **The names and the numbers that are values in a program.** -/
def Program.leaves (program : Program) : List String :=
  program.flatMap fun f => Stmt.leavesAll f.body

mutual

/-- **The code of a statement settles its nodes.** -/
theorem Stmt.settles_lower (supply : Supply) : (stmt : Stmt) →
    (∀ w ∈ stmt.leaves, spellsTemp w = false) →
    Code.Settles (stmt.lower supply).code supply.temps stmt.nodes
  | .declare decl, h => Declaration.settles_lower supply decl h
  | .assign a, h => Assignment.settles_lower supply a h
  | .call callee args, h => by
    have hcall := Expr.yields_lower supply.temps (.call callee args) h
    have hword : ((Expr.call callee args).lower supply.temps).operand =
        temp (supply.temps + Expr.operationsAll args + 1) := by
      rw [Expr.lower, (Expr.temporaries_lowerAll supply.temps args).1]
    rw [hword, Expr.operations] at hcall
    exact hcall.settles_discarded (Expr.length_nodesAll args)
      (fun _ => Expr.discarded_of_mem_nodesAll args) rfl
  | .ret none line, _ => Code.settles_nil rfl supply.temps
  | .ret (some value) line, h => value.settles_lower supply.temps h rfl
  | .branch cond yes no, h => by
    rw [Stmt.leaves, List.forall_mem_append, List.forall_mem_append] at h
    obtain ⟨⟨hcond, hyes⟩, hno⟩ := h
    have htest := cond.settles_lower supply.temps hcond
      (i := .ifFalse (cond.lower supply.temps).operand (label (supply.labels + 1))) rfl
    have hblock :=
      Stmt.settles_lowerAll ⟨(cond.lower supply.temps).temps, supply.labels + 2⟩ yes hyes
    have hother := Stmt.settles_lowerElse (Stmt.lowerAll
      ⟨(cond.lower supply.temps).temps, supply.labels + 2⟩ yes).supply no hno
    have htemps := (Expr.temporaries_lower supply.temps cond).1
    rw [Stmt.lower, Stmt.nodes]
    refine Code.Settles.append_silent ?_ rfl
    refine Code.Settles.append (Code.Settles.append_silent ?_ rfl) hother ?_
    · refine htest.append hblock ?_
      rw [htemps, cond.length_nodes]
    · rw [(Stmt.temporaries_lowerAll _ yes).1, htemps, List.length_append, cond.length_nodes,
        Stmt.length_nodesAll, Nat.add_assoc]
  | .loop init cond step body, h => by
    rw [Stmt.leaves, List.forall_mem_append, List.forall_mem_append, List.forall_mem_append] at h
    obtain ⟨⟨⟨hinit, hcond⟩, hbody⟩, hstep⟩ := h
    have hhead := Declaration.settles_lower supply init hinit
    have htest := cond.settles_lower (init.lower supply).supply.temps hcond
      (i := .ifFalse (cond.lower (init.lower supply).supply.temps).operand
        (label ((init.lower supply).supply.labels + 2))) rfl
    have hblock := Stmt.settles_lowerAll ⟨(cond.lower (init.lower supply).supply.temps).temps,
      (init.lower supply).supply.labels + 2⟩ body hbody
    have hend := Assignment.settles_lower (Stmt.lowerAll
      ⟨(cond.lower (init.lower supply).supply.temps).temps,
        (init.lower supply).supply.labels + 2⟩ body).supply step hstep
    have hfirst : (init.lower supply).supply.temps =
        supply.temps + (Expr.nodesOption init.init).length := by
      rw [(Declaration.temporaries_lower supply init).1, Expr.length_nodesOption]
      rfl
    have hsecond : (cond.lower (init.lower supply).supply.temps).temps =
        supply.temps + (Expr.nodesOption init.init ++ cond.nodes).length := by
      rw [(Expr.temporaries_lower _ cond).1, hfirst, List.length_append, cond.length_nodes,
        Nat.add_assoc]
    rw [Stmt.lower, Stmt.nodes]
    refine Code.Settles.append_silent ?_ rfl
    refine Code.Settles.append (Code.Settles.append ?_ hblock hsecond) hend ?_
    · rw [List.append_assoc _ (cond.lower _).code]
      exact (hhead.append_silent rfl).append htest hfirst
    · rw [(Stmt.temporaries_lowerAll _ body).1, hsecond]
      simp only [List.length_append, Stmt.length_nodesAll, Nat.add_assoc]

theorem Stmt.settles_lowerAll (supply : Supply) : (stmts : List Stmt) →
    (∀ w ∈ Stmt.leavesAll stmts, spellsTemp w = false) →
    Code.Settles (Stmt.lowerAll supply stmts).code supply.temps (Stmt.nodesAll stmts)
  | [], _ => Code.settles_nil rfl supply.temps
  | stmt :: stmts, h => by
    obtain ⟨hfirst, hrest⟩ := List.forall_mem_append.mp h
    have hstmt := Stmt.settles_lower supply stmt hfirst
    have hstmts := Stmt.settles_lowerAll (stmt.lower supply).supply stmts hrest
    refine hstmt.append hstmts ?_
    rw [(Stmt.temporaries_lower supply stmt).1, stmt.length_nodes]

theorem Stmt.settles_lowerElse (supply : Supply) : (no : Option (List Stmt)) →
    (∀ w ∈ Stmt.leavesElse no, spellsTemp w = false) →
    Code.Settles (Stmt.lowerElse supply no).code supply.temps (Stmt.nodesElse no)
  | none, _ => Code.settles_nil rfl supply.temps
  | some stmts, h => Stmt.settles_lowerAll supply stmts h

end

/-! ## 6. Programs -/

namespace Function

theorem nodes_cons (f : Function) (fs : List Function) :
    Program.nodes (f :: fs) = Stmt.nodesAll f.body ++ Program.nodes fs := rfl

/-- A function takes as many temporaries as it has nodes. -/
theorem temps_lower_nodes (supply : Supply) (f : Function) :
    (f.lower supply).supply.temps = supply.temps + (Stmt.nodesAll f.body).length := by
  rw [temps_lower, Stmt.length_nodesAll]
  rfl

theorem operators_lowerAll (fs : List Function) : ∀ supply : Supply,
    Code.operators (lowerAll supply fs).code = (Program.nodes fs).map Node.operator := by
  induction fs with
  | nil => exact fun _ => rfl
  | cons f fs ih =>
    intro supply
    have hbody := Stmt.operators_lowerAll supply f.body
    simp [lowerAll, Function.lower, nodes_cons, hbody, ih, Instruction.operator?]

/-- The functions put their results into the next temporaries, in order. -/
theorem temporaries_lowerAll (fs : List Function) : ∀ supply : Supply,
    Code.temporaries (lowerAll supply fs).code =
      tempRange supply.temps (Program.nodes fs).length := by
  induction fs with
  | nil => exact fun _ => rfl
  | cons f fs ih =>
    intro supply
    have hbody := (Stmt.temporaries_lowerAll supply f.body).2
    have hf : Code.temporaries (f.lower supply).code =
        tempRange supply.temps (Stmt.nodesAll f.body).length := by
      rw [Stmt.length_nodesAll, ← hbody, Function.lower]
      simp [Code.temporaries_cons, Instruction.temporary?]
    rw [lowerAll, Code.temporaries_append, hf, ih, temps_lower_nodes, nodes_cons,
      List.length_append, ← tempRange_append]

/-- The functions settle the nodes of a program. -/
theorem settles_lowerAll (fs : List Function) : ∀ supply : Supply,
    (∀ w ∈ Program.leaves fs, spellsTemp w = false) →
    Code.Settles (lowerAll supply fs).code supply.temps (Program.nodes fs) := by
  induction fs with
  | nil => exact fun supply _ => Code.settles_nil rfl supply.temps
  | cons f fs ih =>
    intro supply h
    obtain ⟨hf, hfs⟩ := List.forall_mem_append.mp h
    have hopened := (Code.settles_nil (a := [.funcBegin f.id.name]) rfl supply.temps).append
      (Stmt.settles_lowerAll supply f.body hf) rfl
    have hclosed := hopened.append_silent (b := [.funcEnd f.id.name]) rfl
    exact hclosed.append (ih (f.lower supply).supply hfs) (temps_lower_nodes supply f)

end Function

/-- **Every operation is computed once, in evaluation order.** The instructions of the code that
    compute are the nodes of the program in post-order, each with the operator or the callee of its
    node, and their results go into `t1`, `t2`, … in this order. If none of the names and numbers
    that are values in the program is spelled like a temporary, then each of these temporaries is
    read exactly once: by a later instruction, with nothing but computations between the two, and
    so no label, jump, return or mark. The result of a call that is a statement is never read. -/
theorem Program.operations_in_postorder (program : Program) :
    program.lower.filterMap Instruction.computed? =
      (tempRange 0 program.nodes.length).zip (program.nodes.map Node.operator) ∧
    ((∀ w ∈ program.leaves, spellsTemp w = false) →
      ∀ k node, program.nodes[k]? = some node →
        (node.discarded = false → Code.ReadOnce program.lower (temp (k + 1))) ∧
        (node.discarded = true → temp (k + 1) ∉ Code.reads program.lower)) := by
  refine ⟨?_, fun hleaves k node hnode => ?_⟩
  · rw [Code.filterMap_computed?, Program.lower, Function.temporaries_lowerAll,
      Function.operators_lowerAll]
  · have htreats := (Function.settles_lowerAll program ⟨0, 0⟩ hleaves).treats k node hnode
    rw [Nat.zero_add] at htreats
    exact ⟨htreats.kept, htreats.discarded⟩

/-- A call that is a statement, and a call inside an operation. -/
def droppedCall : Program :=
  [⟨.int, ⟨"f", 1⟩, [⟨.int, ⟨"a", 1⟩⟩],
    [.call ⟨"g", 1⟩ [.binary .add (.ident ⟨"a", 1⟩) (.number "1"), .unary .neg (.ident ⟨"a", 1⟩)],
      .ret (some (.binary .mul (.call ⟨"h", 1⟩ [.ident ⟨"a", 1⟩]) (.number "2"))) 1]⟩]

theorem Program.operations_in_postorder_droppedCall :
    droppedCall.lower.filterMap Instruction.computed? =
      [("t1", .binary .add), ("t2", .unary .neg), ("t3", .call "g"), ("t4", .call "h"),
        ("t5", .binary .mul)] ∧
    (∀ w ∈ droppedCall.leaves, spellsTemp w = false) ∧
    droppedCall.nodes[0]? = some ⟨.binary .add, false⟩ ∧
    Code.ReadOnce droppedCall.lower "t1" ∧
    droppedCall.nodes[2]? = some ⟨.call "g", true⟩ ∧
    "t3" ∉ Code.reads droppedCall.lower := by
  obtain ⟨hcomputed, hreads⟩ := Program.operations_in_postorder droppedCall
  have hleaves : ∀ w ∈ droppedCall.leaves, spellsTemp w = false := by decide
  exact ⟨hcomputed, hleaves, rfl, (hreads hleaves 0 ⟨.binary .add, false⟩ rfl).1 rfl, rfl,
    (hreads hleaves 2 ⟨.call "g", true⟩ rfl).2 rfl⟩

end MiniC
