import MiniC.Proofs.Execution.Mirror
import MiniC.Proofs.Scope.Uses

/-!
# The code follows the tree

The machine on the code of an expression or a statement follows the run of the tree, wherever the
code stands and whatever the numbers of its temporaries and labels. For an expression the invariant
is that only temporaries taken by the expression itself change, so that a value computed before is
still there when it is read; for a statement it is that the frame mirrors the environment. A loop
is followed round by round, and each round makes at least one step.
-/

namespace MiniC

universe u

variable {Value : Type u} {I : Interpretation Value} {code : Code}

/-! ## 1. Steps of the machine -/

namespace State

variable {s : State Value}

theorem step_binary {dest left right : String} {op : BinaryOp} {a b : Value}
    (h : code[s.pc]? = some (.binary dest left op right)) (ha : I.operand s.frame left = some a)
    (hb : I.operand s.frame right = some b) :
    s.step I code = s.store dest (I.binary op a b) := by
  simp only [step, h, ha, hb, Option.bind_some]

theorem step_unary {dest operand : String} {op : UnaryOp} {a : Value}
    (h : code[s.pc]? = some (.unary dest op operand)) (ha : I.operand s.frame operand = some a) :
    s.step I code = s.store dest (I.unary op a) := by
  simp only [step, h, ha, Option.bind_some]

theorem step_copy {dest source : String} {a : Value} (h : code[s.pc]? = some (.copy dest source))
    (ha : I.operand s.frame source = some a) :
    s.step I code = .running { s with pc := s.pc + 1, frame := s.frame.set dest a } := by
  simp only [step, h, ha, store]

theorem step_param {word : String} {a : Value} (h : code[s.pc]? = some (.param word))
    (ha : I.operand s.frame word = some a) :
    s.step I code = .running { s with pc := s.pc + 1, queue := s.queue ++ [a] } := by
  simp only [step, h, ha]

theorem step_call {dest callee : String} {queue args : List Value}
    (h : code[s.pc]? = some (.call dest callee args.length)) (hqueue : s.queue = queue ++ args) :
    s.step I code = .running {
      pc := s.pc + 1
      frame := s.frame.set dest (I.answer s.history callee args)
      queue := queue
      history := s.history ++ [⟨callee, args, I.answer s.history callee args⟩] } := by
  have hlength : s.queue.length - args.length = queue.length := by
    rw [hqueue, List.length_append, Nat.add_sub_cancel]
  have hle : args.length ≤ s.queue.length := by
    rw [hqueue, List.length_append]
    omega
  simp only [step, h, if_pos hle, hlength]
  rw [hqueue, List.drop_left, List.take_left]

theorem step_label {name : String} (h : code[s.pc]? = some (.label name)) :
    s.step I code = .running s.next := by
  simp only [step, h]

theorem step_goto {target : String} {pc : Nat} (h : code[s.pc]? = some (.goto target))
    (htarget : code.target? target = some pc) : s.step I code = .running { s with pc } := by
  simp only [step, h, jump, htarget]

theorem step_ifFalse {cond target : String} {a : Value} {pc : Nat}
    (h : code[s.pc]? = some (.ifFalse cond target)) (ha : I.operand s.frame cond = some a)
    (htarget : code.target? target = some pc) :
    s.step I code = .running { s with pc := if I.isFalse a then pc else s.pc + 1 } := by
  simp only [step, h, ha, jump, htarget]
  cases I.isFalse a <;> rfl

theorem step_ret {word : String} {a : Value} (h : code[s.pc]? = some (.ret (some word)))
    (ha : I.operand s.frame word = some a) :
    s.step I code = .finished (.returned (some a)) s.history := by
  simp only [step, h, ha]

/-- Handing over several values, one after the other. -/
theorem run_params {words : List String} {values : List Value} {s : State Value}
    (hat : code.At s.pc (words.map .param))
    (hwords : words.map (I.operand s.frame) = values.map some) :
    s.run I code words.length =
      .running { s with pc := s.pc + words.length, queue := s.queue ++ values } := by
  induction words generalizing s values with
  | nil =>
    cases values with
    | nil => simp [run]
    | cons => cases hwords
  | cons word words ih =>
    cases values with
    | nil => cases hwords
    | cons value values =>
      obtain ⟨hword, hwords⟩ := List.cons.inj hwords
      rw [List.length_cons, run_of_step (step_param hat.head hword) words.length]
      have hrest := ih (s := { s with pc := s.pc + 1, queue := s.queue ++ [value] }) hat.tail hwords
      rw [hrest]
      simp [Nat.add_comm, Nat.add_left_comm]

end State

/-! ## 2. Expressions -/

/-- What the machine has done when it has run the code `c` of an expression, from `s` to `s'`: only
    temporaries after the first `n` have changed, and the operand holds the value for as long as no
    temporary of the expression changes. -/
structure Evaluated (I : Interpretation Value) (n : Nat) (c : Computed) (s : State Value)
    (value : Value) (s' : State Value) : Prop where
  pc : s'.pc = s.pc + c.code.length
  queue : s'.queue = s.queue
  frame : s.frame.SameUpTo n s'.frame
  value : ∀ frame, s'.frame.SameUpTo c.temps frame → I.operand frame c.operand = some value

/-- The same for several expressions. -/
structure EvaluatedAll (I : Interpretation Value) (n : Nat) (c : ComputedAll) (s : State Value)
    (values : List Value) (s' : State Value) : Prop where
  pc : s'.pc = s.pc + c.code.length
  queue : s'.queue = s.queue
  frame : s.frame.SameUpTo n s'.frame
  values : ∀ frame, s'.frame.SameUpTo c.temps frame →
    c.operands.map (I.operand frame) = values.map some

/-- The value that an operation leaves in the next temporary. -/
theorem Follows.store_temp {least n k : Nat} {c : Code} {s s' : State Value} {r : Option Value}
    (hstep : s'.step I code = s'.store (temp (k + 1)) r) (hle : n ≤ k)
    (hpc : s'.pc + 1 = s.pc + c.length) (hqueue : s'.queue = s.queue)
    (hframe : s.frame.SameUpTo n s'.frame) :
    Follows I code least s' (match r with
      | some value => .done value s'.history
      | none => .stuck s'.history) (Evaluated I n ⟨c, temp (k + 1), k + 1⟩ s) := by
  cases r with
  | none => exact .stuck hstep
  | some value =>
    refine .step' hstep (.done ⟨hpc, hqueue, ?_, fun frame hsame => ?_⟩)
    · exact hframe.trans (.set_temp (by omega) s'.frame value)
    · rw [I.operand_name frame (isName_temp _), hsame.temp]
      exact Frame.set_self _ _ value

theorem Expr.le_temps_lower (n : Nat) (e : Expr) : n ≤ (e.lower n).temps := by
  rw [(Expr.temporaries_lower n e).1]
  exact Nat.le_add_right _ _

theorem Expr.le_temps_lowerAll (n : Nat) (es : List Expr) : n ≤ (Expr.lowerAll n es).temps := by
  rw [(Expr.temporaries_lowerAll n es).1]
  exact Nat.le_add_right _ _

mutual

/-- **The code of an expression computes its value.** -/
theorem Expr.follows {env : Env Value} {least n : Nat} {s : State Value} : (e : Expr) →
    e.WellLexed → (∀ id ∈ e.reads, id.name ∈ env.names) → Mirrors env s.frame →
    code.At s.pc (e.lower n).code →
    Follows I code least s (e.evaluate I env s.history) (Evaluated I n (e.lower n) s)
  | .number text, hlexed, _, _, _ => by
    rw [Expr.evaluate]
    exact .done ⟨rfl, rfl, .refl n _, fun frame _ => I.operand_number frame hlexed⟩
  | .string value, _, _, _, _ => by
    rw [Expr.evaluate]
    exact .done ⟨rfl, rfl, .refl n _, fun frame _ => I.operand_string frame value⟩
  | .ident id, _, hreads, hmirrors, _ => by
    have hmem : id.name ∈ env.names := hreads id List.mem_cons_self
    obtain ⟨slot, hslot⟩ := Env.exists_lookup hmem
    simp only [Expr.evaluate, hslot]
    cases slot with
    | none => exact .unset
    | some value =>
      have hname := hmirrors.name _ hmem
      refine .done ⟨rfl, rfl, .refl n _, fun frame hsame => ?_⟩
      show I.operand frame id.name = some value
      rw [I.operand_name frame hname.isName, hsame.variable hname]
      exact hmirrors.value _ _ (Env.mem_of_lookup hslot)
  | .binary op left right, hlexed, hreads, hmirrors, hat => by
    obtain ⟨hlexed, hlexed'⟩ := hlexed
    obtain ⟨hreads, hreads'⟩ := List.forall_mem_append.mp hreads
    rw [Expr.evaluate]
    rw [Expr.lower] at hat ⊢
    refine (Expr.follows left hlexed hreads hmirrors hat.left.left).bind fun a s₁ h₁ => ?_
    have hat₁ : code.At s₁.pc (right.lower (left.lower n).temps).code := by
      rw [h₁.pc]
      exact hat.left.right
    refine (Expr.follows right hlexed' hreads' (hmirrors.same h₁.frame) hat₁).bind
      fun b s₂ h₂ => ?_
    have hat₂ := hat.right
    rw [List.length_append, ← Nat.add_assoc, ← h₁.pc, ← h₂.pc] at hat₂
    have hle := Expr.le_temps_lower n left
    refine .store_temp (State.step_binary hat₂.head (h₁.value _ h₂.frame) (h₂.value _ (.refl _ _)))
      (Nat.le_trans hle (Expr.le_temps_lower _ right)) ?_ (h₂.queue.trans h₁.queue)
      (h₁.frame.trans (h₂.frame.of_le hle))
    rw [h₂.pc, h₁.pc]
    simp only [List.length_append, List.length_singleton]
    omega
  | .unary op operand, hlexed, hreads, hmirrors, hat => by
    rw [Expr.evaluate]
    rw [Expr.lower] at hat ⊢
    refine (Expr.follows operand hlexed hreads hmirrors hat.left).bind fun a s₁ h₁ => ?_
    have hat₁ := hat.right
    rw [← h₁.pc] at hat₁
    refine .store_temp (State.step_unary hat₁.head (h₁.value _ (.refl _ _)))
      (Expr.le_temps_lower n operand) ?_ h₁.queue h₁.frame
    rw [h₁.pc]
    simp only [List.length_append, List.length_singleton]
    omega
  | .call callee args, hlexed, hreads, hmirrors, hat => by
    rw [Expr.evaluate]
    rw [Expr.lower] at hat ⊢
    refine (Expr.followsAll args hlexed hreads hmirrors hat.left.left).bind
      fun values s₁ h₁ => ?_
    have hat₁ := hat.left.right
    rw [← h₁.pc] at hat₁
    have hwords := h₁.values _ (.refl _ _)
    have hlength : (Expr.lowerAll n args).operands.length = values.length := by
      simpa using congrArg List.length hwords
    have hrun := State.run_params hat₁ hwords
    -- The arguments are handed over; what was handed over before them stays.
    have hat₂ := hat.right
    rw [List.length_append, ← Nat.add_assoc, ← h₁.pc, List.length_map, hlength] at hat₂
    rw [hlength] at hrun
    refine (Follows.after hrun ?_).of_le (Nat.le_add_left _ _)
    refine .step' (State.step_call hat₂.head rfl) ?_
    refine .done ⟨?_, h₁.queue, ?_, fun frame hsame => ?_⟩
    · show s₁.pc + values.length + 1 = _
      rw [h₁.pc]
      simp only [List.length_append, List.length_map, List.length_singleton, hlength]
      omega
    · have hle := Expr.le_temps_lowerAll n args
      exact h₁.frame.trans (.set_temp (by omega) _ _)
    · rw [I.operand_name frame (isName_temp _), hsame.temp]
      exact Frame.set_self _ _ _

theorem Expr.followsAll {env : Env Value} {least n : Nat} {s : State Value} :
    (es : List Expr) → Expr.WellLexedAll es → (∀ id ∈ Expr.readsAll es, id.name ∈ env.names) →
    Mirrors env s.frame → code.At s.pc (Expr.lowerAll n es).code →
    Follows I code least s (Expr.evaluateAll I env es s.history)
      (EvaluatedAll I n (Expr.lowerAll n es) s)
  | [], _, _, _, _ => by
    rw [Expr.evaluateAll]
    exact .done ⟨rfl, rfl, .refl n _, fun _ _ => rfl⟩
  | e :: es, hlexed, hreads, hmirrors, hat => by
    obtain ⟨hlexed, hlexed'⟩ := hlexed
    obtain ⟨hreads, hreads'⟩ := List.forall_mem_append.mp hreads
    rw [Expr.evaluateAll]
    rw [Expr.lowerAll] at hat ⊢
    refine (Expr.follows e hlexed hreads hmirrors hat.left).bind fun value s₁ h₁ => ?_
    have hat₁ := hat.right
    rw [← h₁.pc] at hat₁
    refine (Expr.followsAll es hlexed' hreads' (hmirrors.same h₁.frame) hat₁).bind
      fun values s₂ h₂ => ?_
    have hle := Expr.le_temps_lower n e
    refine .done ⟨?_, h₂.queue.trans h₁.queue, h₁.frame.trans (h₂.frame.of_le hle),
      fun frame hsame => ?_⟩
    · rw [h₂.pc, h₁.pc, List.length_append, Nat.add_assoc]
    · have hle' := Expr.le_temps_lowerAll (e.lower n).temps es
      rw [List.map_cons, List.map_cons, h₂.values frame hsame,
        h₁.value frame (h₂.frame.trans (hsame.of_le hle'))]

end

/-! ## 3. Trees that fit the names in force -/

/-- The numbers of the expression are numbers, and its names are in force. -/
structure Expr.Fits (names : List String) (e : Expr) : Prop where
  wellLexed : e.WellLexed
  reads : ∀ id ∈ e.reads, id.name ∈ names

/-- The declared name is a new one that no temporary has, and the initial value fits with it. -/
structure Declaration.Fits (names : List String) (decl : Declaration) : Prop where
  target : IsVariableName decl.target.name
  fresh : decl.target.name ∉ names
  init : ∀ e, decl.init = some e → e.Fits (decl.target.name :: names)

/-- The target is in force, and the value fits. -/
structure Assignment.Fits (names : List String) (a : Assignment) : Prop where
  target : a.target.name ∈ names
  value : a.value.Fits names

/-- The names in force after a statement. -/
def Stmt.namesAfter (names : List String) (stmt : Stmt) : List String :=
  (stmt.declared?.map Ident.name).toList ++ names

/-- The names in force after statements. -/
def Stmt.namesAfterAll (names : List String) : List Stmt → List String
  | [] => names
  | stmt :: stmts => Stmt.namesAfterAll (stmt.namesAfter names) stmts

/-- The names in force before are in force after. -/
theorem Stmt.namesAfterAll_eq_append (stmts : List Stmt) : ∀ names : List String,
    ∃ inner, Stmt.namesAfterAll names stmts = inner ++ names := by
  induction stmts with
  | nil => exact fun names => ⟨[], rfl⟩
  | cons stmt stmts ih =>
    intro names
    obtain ⟨inner, hinner⟩ := ih (stmt.namesAfter names)
    refine ⟨inner ++ (stmt.declared?.map Ident.name).toList, ?_⟩
    rw [Stmt.namesAfterAll, hinner, Stmt.namesAfter, List.append_assoc]

mutual

/-- The statement declares new names only and uses names in force only. -/
def Stmt.Fits (names : List String) : Stmt → Prop
  | .declare decl => decl.Fits names
  | .assign a => a.Fits names
  | .call callee args => (Expr.call callee args).Fits names
  | .ret value _ => ∀ e, value = some e → e.Fits names
  | .branch cond yes no => cond.Fits names ∧ Stmt.FitsAll names yes ∧ Stmt.FitsElse names no
  | .loop init cond step body =>
    init.Fits names ∧ cond.Fits (init.target.name :: names) ∧
      step.Fits (init.target.name :: names) ∧ Stmt.FitsAll (init.target.name :: names) body

/-- Each statement fits the names in force after those before it. -/
def Stmt.FitsAll (names : List String) : List Stmt → Prop
  | [] => True
  | stmt :: stmts => stmt.Fits names ∧ Stmt.FitsAll (stmt.namesAfter names) stmts

/-- The `else` block fits, if there is one. -/
def Stmt.FitsElse (names : List String) : Option (List Stmt) → Prop
  | none => True
  | some stmts => Stmt.FitsAll names stmts

end

/-! ## 4. Statements -/

/-- What the machine has done when it has run the code `part` of a statement, from `s` to `s'`: it
    stands behind the code, and the frame mirrors the environment, which has the given names. -/
structure Executed (part : Code) (s : State Value) (names : List String) (env : Env Value)
    (s' : State Value) : Prop where
  pc : s'.pc = s.pc + part.length
  queue : s'.queue = s.queue
  mirrors : Mirrors env s'.frame
  names : env.names = names

/-- Leaving a scope keeps the place and the frame. -/
theorem Follows.leaving {least : Nat} {part : Code} {s s₀ : State Value} {names : List String}
    {env : Env Value} {r : Result Value (Env Value)}
    (h : Follows I code least s r (Executed part s₀ names))
    (hnames : ∃ inner, names = inner ++ env.names) :
    Follows I code least s (r.leaving env) (Executed part s₀ env.names) := by
  obtain ⟨inner, rfl⟩ := hnames
  refine h.bind fun env₁ s₁ h₁ => ?_
  exact .done ⟨h₁.pc, h₁.queue, h₁.mirrors.leave h₁.names, (Env.leave_eq_drop h₁.names).2⟩

theorem Declaration.follows {env : Env Value} {least : Nat} {supply : Supply} {s : State Value}
    {decl : Declaration} (hfits : decl.Fits env.names) (hmirrors : Mirrors env s.frame)
    (hat : code.At s.pc (decl.lower supply).code) :
    Follows I code least s (decl.execute I env s.history)
      (Executed (decl.lower supply).code s (decl.target.name :: env.names)) := by
  obtain ⟨target, init⟩ := decl
  have hpush := hmirrors.push hfits.target hfits.fresh
  cases init with
  | none => exact .done ⟨rfl, rfl, hpush, rfl⟩
  | some init =>
    obtain ⟨hlexed, hreads⟩ := hfits.init init rfl
    rw [Declaration.execute]
    rw [Declaration.lower] at hat ⊢
    have hinit := @Expr.follows _ I code ((target.name, none) :: env) least _ s init hlexed hreads
      hpush hat.left
    refine hinit.bind fun value s₁ h₁ => ?_
    have hat₁ := hat.right
    rw [← h₁.pc] at hat₁
    refine .step' (State.step_copy hat₁.head (h₁.value _ (.refl _ _)))
      (.done ⟨?_, h₁.queue, ?_, rfl⟩)
    · show s₁.pc + 1 = _
      rw [h₁.pc, List.length_append, List.length_singleton, Nat.add_assoc]
    · exact (hmirrors.same h₁.frame).push_set hfits.target hfits.fresh value

theorem Assignment.follows {env : Env Value} {least : Nat} {supply : Supply} {s : State Value}
    {a : Assignment} (hfits : a.Fits env.names) (hmirrors : Mirrors env s.frame)
    (hat : code.At s.pc (a.lower supply).code) :
    Follows I code least s (a.execute I env s.history)
      (Executed (a.lower supply).code s env.names) := by
  rw [Assignment.execute]
  rw [Assignment.lower] at hat ⊢
  refine (Expr.follows a.value hfits.value.wellLexed hfits.value.reads hmirrors hat.left).bind
    fun value s₁ h₁ => ?_
  have hat₁ := hat.right
  rw [← h₁.pc] at hat₁
  obtain ⟨env', hset⟩ := Env.exists_set? hfits.target value
  simp only [hset]
  refine .step' (State.step_copy hat₁.head (h₁.value _ (.refl _ _)))
    (.done ⟨?_, h₁.queue, (hmirrors.same h₁.frame).set hset, (Env.of_set? hset).1⟩)
  show s₁.pc + 1 = _
  rw [h₁.pc, List.length_append, List.length_singleton, Nat.add_assoc]

/-- The code of a branch, from the code of its parts. -/
def Code.ofBranch (cond : Computed) (otherwise done : String) (yes no : Code) : Code :=
  cond.code ++ [Instruction.ifFalse cond.operand otherwise] ++ yes ++
    [Instruction.goto done, Instruction.label otherwise] ++ no ++ [Instruction.label done]

/-- The machine on the code of a branch takes the part that the condition selects. -/
theorem Follows.branch {least n : Nat} {cond : Computed} {yes no : Code} {otherwise done : String}
    {s : State Value} {names : List String} {r : Result Value Value}
    {ryes rno : History Value → Result Value (Env Value)} (hlabels : code.labels.Nodup)
    (hat : code.At s.pc (Code.ofBranch cond otherwise done yes no))
    (hcond : Follows I code least s r (Evaluated I n cond s))
    (hyes : ∀ t : State Value, code.At t.pc yes → s.frame.SameUpTo n t.frame →
      Follows I code least t (ryes t.history) (Executed yes t names))
    (hno : ∀ t : State Value, code.At t.pc no → s.frame.SameUpTo n t.frame →
      Follows I code least t (rno t.history) (Executed no t names)) :
    Follows I code least s
      (r.bind fun value history => if I.isFalse value then rno history else ryes history)
      (Executed (Code.ofBranch cond otherwise done yes no) s names) := by
  simp only [Code.ofBranch, List.append_assoc, List.cons_append, List.nil_append] at hat
  have hjump := hat.right
  have hthen := hjump.tail.left
  have hgoto := hjump.tail.right
  have helse := hgoto.tail.tail.left
  have hend := hgoto.tail.tail.right
  refine hcond.bind fun value s₁ h₁ => ?_
  rw [← h₁.pc] at hjump hthen hgoto helse hend
  refine .step' (State.step_ifFalse hjump.head (h₁.value _ (.refl _ _))
    (hgoto.tail.target? hlabels)) ?_
  have hplace : ∀ t : State Value, t.pc = s₁.pc + 1 + yes.length + 2 + no.length →
      ∀ env, t.queue = s₁.queue → Mirrors env t.frame → env.names = names →
        Follows I code least t (.done env t.history)
          (Executed (Code.ofBranch cond otherwise done yes no) s names) := by
    intro t hpc env hqueue hmirrors hnames
    rw [Nat.add_assoc _ 1 1, ← hpc] at hend
    refine .step' (State.step_label hend.head) (.done ⟨?_, hqueue.trans h₁.queue, hmirrors, hnames⟩)
    show t.pc + 1 = _
    rw [hpc, h₁.pc]
    simp only [Code.ofBranch, List.length_append, List.length_cons, List.length_nil]
    omega
  cases hvalue : I.isFalse value with
  | true =>
    -- Over the mark to the `else` part, behind which the last mark stands.
    refine .step' (State.step_label hgoto.tail.head) ?_
    let t : State Value := { s₁ with pc := s₁.pc + 1 + yes.length + 1 + 1 }
    refine (hno t helse h₁.frame).onward fun env₂ s₂ h₂ => ?_
    exact hplace s₂ h₂.pc env₂ h₂.queue h₂.mirrors h₂.names
  | false =>
    -- Through the first part, and from its end to the last mark.
    let t : State Value := { s₁ with pc := s₁.pc + 1 }
    refine (hyes t hthen h₁.frame).onward fun env₂ s₂ h₂ => ?_
    rw [show s₁.pc + 1 + yes.length = s₂.pc from h₂.pc.symm] at hgoto
    refine .step' (State.step_goto hgoto.head (hend.target? hlabels)) ?_
    exact hplace { s₂ with pc := _ } rfl env₂ h₂.queue h₂.mirrors h₂.names

/-- The code of the rounds of a loop, from the code of their parts. -/
def Code.ofRounds (cond : Computed) (top done : String) (body step : Code) : Code :=
  [Instruction.label top] ++ cond.code ++ [Instruction.ifFalse cond.operand done] ++ body ++
    step ++ [Instruction.goto top, Instruction.label done]

/-- The machine on the code of a loop makes its rounds. -/
theorem Follows.rounds {rounds n : Nat} {cond : Computed} {body step : Code} {top done : String}
    {s : State Value} {names : List String} {env : Env Value}
    {rcond : Env Value → History Value → Result Value Value}
    {rbody rstep : Env Value → History Value → Result Value (Env Value)}
    (hlabels : code.labels.Nodup)
    (hat : code.At s.pc (Code.ofRounds cond top done body step))
    (hcond : ∀ (env : Env Value) (t : State Value), env.names = names → Mirrors env t.frame →
      code.At t.pc cond.code → Follows I code rounds t (rcond env t.history) (Evaluated I n cond t))
    (hbody : ∀ (env : Env Value) (t : State Value), env.names = names → Mirrors env t.frame →
      code.At t.pc body → Follows I code rounds t (rbody env t.history) (Executed body t names))
    (hstep : ∀ (env : Env Value) (t : State Value), env.names = names → Mirrors env t.frame →
      code.At t.pc step → Follows I code rounds t (rstep env t.history) (Executed step t names))
    (hmirrors : Mirrors env s.frame) (hnames : env.names = names) :
    Follows I code rounds s
      (Result.iterate
        (fun env history => (rcond env history).bind fun value history =>
          if I.isFalse value then .done none history
          else (rbody env history).bind fun env history =>
            (rstep env history).bind fun env history => .done (some env) history)
        rounds env s.history)
      (Executed (Code.ofRounds cond top done body step) s names) := by
  have hlength : (Code.ofRounds cond top done body step).dropLast.length =
      1 + cond.code.length + 1 + body.length + step.length + 1 := by
    simp only [Code.ofRounds, List.length_dropLast, List.length_append, List.length_cons,
      List.length_nil]
    omega
  simp only [Code.ofRounds, List.append_assoc, List.cons_append, List.nil_append] at hat
  have hend := hat.tail.right.tail.right.right.tail
  -- A round starts at the first mark, and the last one ends at the last mark.
  refine (Follows.iterate (Executed [] s names)
    (Executed (Code.ofRounds cond top done body step).dropLast s names) ?_ rounds (Nat.le_refl _)
    env s ⟨rfl, rfl, hmirrors, hnames⟩).onward ?_
  · intro env t h
    have htop := hat
    rw [show s.pc = t.pc from h.pc.symm] at htop
    refine ⟨t.next, State.step_label htop.head, rfl, ?_⟩
    refine (hcond env t.next h.names h.mirrors htop.tail.left).bind fun value t₁ h₁ => ?_
    have hmirrors₁ := h.mirrors.same h₁.frame
    have hjump := htop.tail.right
    rw [show t.pc + 1 + cond.code.length = t₁.pc from h₁.pc.symm] at hjump
    refine .step' (State.step_ifFalse hjump.head (h₁.value _ (.refl _ _))
      (hend.target? hlabels)) ?_
    cases hvalue : I.isFalse value with
    | true =>
      refine .done ⟨?_, h₁.queue.trans h.queue, hmirrors₁, h.names⟩
      show s.pc + 1 + cond.code.length + 1 + body.length + step.length + 1 = _
      rw [hlength]
      omega
    | false =>
      let t₂ : State Value := { t₁ with pc := t₁.pc + 1 }
      refine (hbody env t₂ h.names hmirrors₁ hjump.tail.left).bind fun env₃ t₃ h₃ => ?_
      have hback := hjump.tail.right
      rw [show t₁.pc + 1 + body.length = t₃.pc from h₃.pc.symm] at hback
      refine (hstep env₃ t₃ h₃.names h₃.mirrors hback.left).bind fun env₄ t₄ h₄ => ?_
      have hgoto := hback.right
      rw [← h₄.pc] at hgoto
      refine .step' (State.step_goto hgoto.head (hat.target? hlabels)) ?_
      have hqueue : t₄.queue = s.queue :=
        (h₄.queue.trans h₃.queue).trans (h₁.queue.trans h.queue)
      exact .done ⟨rfl, hqueue, h₄.mirrors, h₄.names⟩
  · intro env t h
    have hpc : s.pc + 1 + cond.code.length + 1 + body.length + step.length + 1 = t.pc := by
      rw [h.pc, hlength]
      omega
    rw [hpc] at hend
    refine .step' (State.step_label hend.head) (.done ⟨?_, h.queue, h.mirrors, h.names⟩)
    show t.pc + 1 = _
    rw [← hpc]
    simp only [Code.ofRounds, List.length_append, List.length_cons, List.length_nil]
    omega

mutual

/-- **The code of a statement does what the statement does.** -/
theorem Stmt.follows {env : Env Value} {rounds : Nat} {supply : Supply} {s : State Value}
    (hlabels : code.labels.Nodup) : (stmt : Stmt) → stmt.Fits env.names → Mirrors env s.frame →
    code.At s.pc (stmt.lower supply).code →
    Follows I code rounds s (stmt.execute I rounds env s.history)
      (Executed (stmt.lower supply).code s (stmt.namesAfter env.names))
  | .declare decl, hfits, hmirrors, hat => by
    rw [Stmt.execute]
    exact Declaration.follows hfits hmirrors hat
  | .assign a, hfits, hmirrors, hat => by
    rw [Stmt.execute]
    exact Assignment.follows hfits hmirrors hat
  | .call callee args, hfits, hmirrors, hat => by
    rw [Stmt.execute]
    refine (Expr.follows (.call callee args) hfits.wellLexed hfits.reads hmirrors hat).bind
      fun value s₁ h₁ => ?_
    exact .done ⟨h₁.pc, h₁.queue, hmirrors.same h₁.frame, rfl⟩
  | .ret none line, _, _, hat => by
    rw [Stmt.execute]
    refine .returned ?_
    simp only [State.step, hat.head]
  | .ret (some value) line, hfits, hmirrors, hat => by
    obtain ⟨hlexed, hreads⟩ := hfits value rfl
    rw [Stmt.execute]
    rw [Stmt.lower] at hat
    refine (Expr.follows value hlexed hreads hmirrors hat.left).bind fun a s₁ h₁ => ?_
    have hat₁ := hat.right
    rw [← h₁.pc] at hat₁
    exact .returned (State.step_ret hat₁.head (h₁.value _ (.refl _ _)))
  | .branch cond yes no, hfits, hmirrors, hat => by
    obtain ⟨⟨hlexed, hreads⟩, hyes, hno⟩ := hfits
    rw [Stmt.execute]
    rw [Stmt.lower] at hat ⊢
    refine Follows.branch hlabels hat
      (Expr.follows cond hlexed hreads hmirrors hat.left.left.left.left.left) ?_ ?_
    · intro t hthen hsame
      exact (Stmt.followsAll hlabels yes hyes (hmirrors.same hsame) hthen).leaving
        (Stmt.namesAfterAll_eq_append yes env.names)
    · intro t helse hsame
      exact Stmt.followsElse hlabels no hno (hmirrors.same hsame) helse
  | .loop init cond step body, hfits, hmirrors, hat => by
    obtain ⟨hinit, ⟨hlexed, hreads⟩, hstep, hbody⟩ := hfits
    rw [Stmt.execute]
    rw [Stmt.lower] at hat ⊢
    simp only [List.append_assoc] at hat
    refine Follows.leaving ?_ ⟨[init.target.name], rfl⟩
    refine (Declaration.follows hinit hmirrors hat.left).bind fun head s₁ h₁ => ?_
    have hat₁ := hat.right
    rw [← h₁.pc] at hat₁
    simp only [← List.append_assoc] at hat₁
    refine (Follows.rounds (n := (init.lower supply).supply.temps) hlabels hat₁ ?_ ?_ ?_
      h₁.mirrors h₁.names).onward fun env₂ s₂ h₂ => ?_
    · intro env t hnames hmirrors hcond
      rw [← hnames] at hreads
      exact Expr.follows cond hlexed hreads hmirrors hcond
    · intro env t hnames hmirrors hblock
      rw [← hnames] at hbody ⊢
      exact (Stmt.followsAll hlabels body hbody hmirrors hblock).leaving
        (Stmt.namesAfterAll_eq_append body env.names)
    · intro env t hnames hmirrors hassign
      rw [← hnames] at hstep ⊢
      exact Assignment.follows hstep hmirrors hassign
    · refine .done ⟨?_, h₂.queue.trans h₁.queue, h₂.mirrors, h₂.names⟩
      rw [h₂.pc, h₁.pc]
      simp only [Code.ofRounds, List.length_append]
      omega

theorem Stmt.followsAll {env : Env Value} {rounds : Nat} {supply : Supply} {s : State Value}
    (hlabels : code.labels.Nodup) : (stmts : List Stmt) → Stmt.FitsAll env.names stmts →
    Mirrors env s.frame → code.At s.pc (Stmt.lowerAll supply stmts).code →
    Follows I code rounds s (Stmt.executeAll I rounds stmts env s.history)
      (Executed (Stmt.lowerAll supply stmts).code s (Stmt.namesAfterAll env.names stmts))
  | [], _, hmirrors, _ => by
    rw [Stmt.executeAll]
    exact .done ⟨rfl, rfl, hmirrors, rfl⟩
  | stmt :: stmts, hfits, hmirrors, hat => by
    obtain ⟨hstmt, hstmts⟩ := hfits
    rw [Stmt.executeAll]
    rw [Stmt.lowerAll] at hat ⊢
    refine (Stmt.follows hlabels stmt hstmt hmirrors hat.left).bind fun env₁ s₁ h₁ => ?_
    have hat₁ := hat.right
    rw [← h₁.pc] at hat₁
    rw [← h₁.names] at hstmts
    refine (Stmt.followsAll hlabels stmts hstmts h₁.mirrors hat₁).onward fun env₂ s₂ h₂ => ?_
    refine .done ⟨?_, h₂.queue.trans h₁.queue, h₂.mirrors, ?_⟩
    · rw [h₂.pc, h₁.pc, List.length_append, Nat.add_assoc]
    · rw [h₂.names, h₁.names, Stmt.namesAfterAll]

theorem Stmt.followsElse {env : Env Value} {rounds : Nat} {supply : Supply} {s : State Value}
    (hlabels : code.labels.Nodup) : (no : Option (List Stmt)) → Stmt.FitsElse env.names no →
    Mirrors env s.frame → code.At s.pc (Stmt.lowerElse supply no).code →
    Follows I code rounds s (Stmt.executeElse I rounds no env s.history)
      (Executed (Stmt.lowerElse supply no).code s env.names)
  | none, _, hmirrors, _ => by
    rw [Stmt.executeElse]
    exact .done ⟨rfl, rfl, hmirrors, rfl⟩
  | some stmts, hfits, hmirrors, hat => by
    rw [Stmt.executeElse]
    rw [Stmt.lowerElse] at hat ⊢
    exact (Stmt.followsAll hlabels stmts hfits hmirrors hat).leaving
      (Stmt.namesAfterAll_eq_append stmts env.names)

end

end MiniC
