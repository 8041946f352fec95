import MiniC.Proofs.Code.Linkage

/-!
# The arguments of calls

All arguments of a call are computed before the first of them is handed over, so nothing comes
between the arguments that are handed over and the call that takes them. The code of a program
therefore falls into groups, one for each call in post-order, which hand over the arguments of that
call from left to right and then call (`Code.Grouped`); outside these groups nothing is handed over
and nothing is called. Main statement: `Program.params_belong_to_next_call`.
-/

namespace MiniC

/-! ## 1. The calls of a program -/

/-- The word that holds the value of an expression, when the results of its operations go into the
    temporaries after the first `taken`: a literal or a name stands for itself, and any other value
    is the result of the last of the operations. -/
def Expr.holder (taken : Nat) : Expr → String
  | .number text => text
  | .string value => "\"" ++ value ++ "\""
  | .ident id => id.name
  | .binary op left right => temp (taken + (Expr.binary op left right).operations)
  | .unary op operand => temp (taken + (Expr.unary op operand).operations)
  | .call callee args => temp (taken + (Expr.call callee args).operations)

/-- The words that hold the values of expressions. -/
def Expr.holders (taken : Nat) : List Expr → List String
  | [] => []
  | e :: es => e.holder taken :: Expr.holders (taken + e.operations) es

/-- A call of the program. -/
structure CallSite where
  /-- How many operations come before those of the arguments. -/
  taken : Nat
  callee : Ident
  args : List Expr

mutual

/-- The calls of an expression in post-order, when `taken` operations come before it. -/
def Expr.callSites (taken : Nat) : Expr → List CallSite
  | .number _ | .string _ | .ident _ => []
  | .binary _ left right =>
    left.callSites taken ++ right.callSites (taken + left.operations)
  | .unary _ operand => operand.callSites taken
  | .call callee args => Expr.callSitesAll taken args ++ [⟨taken, callee, args⟩]

/-- The calls of expressions, one after the other. -/
def Expr.callSitesAll (taken : Nat) : List Expr → List CallSite
  | [] => []
  | e :: es => e.callSites taken ++ Expr.callSitesAll (taken + e.operations) es

end

/-- The calls of an expression that may be absent. -/
def Expr.callSitesOption (taken : Nat) : Option Expr → List CallSite
  | none => []
  | some e => e.callSites taken

mutual

/-- The calls of a statement in post-order. The body of a loop comes before its step. -/
def Stmt.callSites (taken : Nat) : Stmt → List CallSite
  | .declare decl => Expr.callSitesOption taken decl.init
  | .assign a => a.value.callSites taken
  | .call callee args => (Expr.call callee args).callSites taken
  | .ret value _ => Expr.callSitesOption taken value
  | .branch cond yes no =>
    cond.callSites taken ++ Stmt.callSitesAll (taken + cond.operations) yes ++
      Stmt.callSitesElse (taken + cond.operations + Stmt.operationsAll yes) no
  | .loop init cond step body =>
    Expr.callSitesOption taken init.init ++ cond.callSites (taken + init.operations) ++
      Stmt.callSitesAll (taken + init.operations + cond.operations) body ++
      step.value.callSites
        (taken + init.operations + cond.operations + Stmt.operationsAll body)

/-- The calls of statements, one after the other. -/
def Stmt.callSitesAll (taken : Nat) : List Stmt → List CallSite
  | [] => []
  | stmt :: stmts => stmt.callSites taken ++ Stmt.callSitesAll (taken + stmt.operations) stmts

/-- The calls of an `else` block, if there is one. -/
def Stmt.callSitesElse (taken : Nat) : Option (List Stmt) → List CallSite
  | none => []
  | some stmts => Stmt.callSitesAll taken stmts

end

/-- The calls of functions, one after the other. -/
def Function.callSitesAll (taken : Nat) : List Function → List CallSite
  | [] => []
  | f :: fs => Stmt.callSitesAll taken f.body ++ Function.callSitesAll (taken + f.operations) fs

/-- **The calls of a program**, in post-order within each of its functions. -/
def Program.callSites (program : Program) : List CallSite := Function.callSitesAll 0 program

namespace CallSite

/-- The words that hold the values of the arguments. -/
def handed (site : CallSite) : List String := Expr.holders site.taken site.args

/-- The instruction that calls. -/
def instruction (site : CallSite) : Instruction :=
  .call (temp (site.taken + Expr.operationsAll site.args + 1)) site.callee.name site.args.length

/-- The arguments are handed over from left to right, and then comes the call. -/
def code (site : CallSite) : Code := site.handed.map Instruction.param ++ [site.instruction]

end CallSite

theorem Expr.length_holders (es : List Expr) : ∀ taken : Nat,
    (Expr.holders taken es).length = es.length := by
  induction es with
  | nil => exact fun _ => rfl
  | cons e es ih => exact fun taken => congrArg (· + 1) (ih _)

theorem Expr.operand_lower (temps : Nat) (e : Expr) :
    (e.lower temps).operand = e.holder temps := by
  have htemps := (Expr.temporaries_lower temps e).1
  cases e with
  | number | string | ident => rfl
  | binary | unary | call =>
    rw [Expr.holder, ← htemps]
    rfl

theorem Expr.operands_lowerAll (es : List Expr) : ∀ temps : Nat,
    (Expr.lowerAll temps es).operands = Expr.holders temps es := by
  induction es with
  | nil => exact fun _ => rfl
  | cons e es ih =>
    intro temps
    rw [Expr.lowerAll, Expr.holders, e.operand_lower, ih, (Expr.temporaries_lower temps e).1]

/-! ## 2. Code in groups -/

namespace Instruction

/-- Whether the instruction hands over an argument. -/
def isParam : Instruction → Bool
  | .param _ => true
  | _ => false

/-- Whether the instruction calls. -/
def isCall : Instruction → Bool
  | .call _ _ _ => true
  | _ => false

/-- Whether the instruction hands over an argument or calls. -/
def isPassing (i : Instruction) : Bool := i.isParam || i.isCall

end Instruction

namespace Code

/-- The arguments handed over at the end of the code: the longest run of instructions there that do
    nothing else. -/
def lastParams (code : Code) : Code := code.rtakeWhile Instruction.isParam

/-- Whether the code neither hands over an argument nor calls. -/
def isPlain (code : Code) : Bool := code.all fun i => !i.isPassing

/-- **The code is in groups**: the calls come with the arguments that they take right before them,
    and nothing else is handed over or called. -/
inductive Grouped : Code → List CallSite → Prop
  | nil : Grouped [] []
  | other {i : Instruction} {code : Code} {sites : List CallSite} (plain : i.isPassing = false)
      (rest : Grouped code sites) : Grouped (i :: code) sites
  | call {code : Code} {sites : List CallSite} (site : CallSite) (rest : Grouped code sites) :
      Grouped (site.code ++ code) (site :: sites)

theorem countP_isCall_params (words : List String) :
    (words.map Instruction.param).countP Instruction.isCall = 0 := by
  rw [List.countP_map]
  exact List.countP_eq_zero.mpr fun _ _ hcall => by cases hcall

theorem lastParams_append_params (code : Code) (words : List String) :
    lastParams (code ++ words.map Instruction.param) =
      lastParams code ++ words.map Instruction.param := by
  have hparams : ∀ i ∈ (words.map Instruction.param).reverse, i.isParam = true := by
    intro i hi
    obtain ⟨w, -, rfl⟩ := List.mem_map.mp (List.mem_reverse.mp hi)
    rfl
  rw [lastParams, List.rtakeWhile, List.reverse_append, List.takeWhile_append_of_pos hparams,
    List.reverse_append, List.reverse_reverse]
  rfl

/-- What stands before an instruction that hands over nothing does not matter. -/
theorem lastParams_append_cons (a b : Code) {i : Instruction} (hi : i.isParam = false) :
    lastParams (a ++ i :: b) = lastParams b := by
  -- read from the end, the run stops at `i` at the latest
  have hstop : (i :: a.reverse).takeWhile Instruction.isParam = [] :=
    List.takeWhile_cons_of_neg (Bool.eq_false_iff.mp hi)
  rw [lastParams, lastParams, List.rtakeWhile, List.rtakeWhile, List.reverse_append,
    List.reverse_cons, List.append_assoc, List.singleton_append, List.takeWhile_append, hstop]
  split
  case isTrue hall =>
    rw [List.append_nil, (List.takeWhile_prefix _).eq_of_length hall]
  case isFalse => rfl

namespace Grouped

variable {a b code pre post : Code} {sites sites' : List CallSite} {i : Instruction}

theorem append (ha : Grouped a sites) (hb : Grouped b sites') :
    Grouped (a ++ b) (sites ++ sites') := by
  induction ha with
  | nil => exact hb
  | other plain _ ih => exact .other plain ih
  | call site _ ih =>
    rw [List.append_assoc]
    exact .call site ih

theorem of_isPlain (h : isPlain code = true) : Grouped code [] := by
  induction code with
  | nil => exact .nil
  | cons i code ih =>
    rw [isPlain, List.all_cons, Bool.and_eq_true, Bool.not_eq_true'] at h
    exact .other h.1 (ih h.2)

theorem append_plain (ha : Grouped a sites) (hb : isPlain b = true) : Grouped (a ++ b) sites := by
  have hboth := ha.append (of_isPlain hb)
  rwa [List.append_nil] at hboth

theorem plain_append (ha : isPlain a = true) (hb : Grouped b sites) : Grouped (a ++ b) sites :=
  (of_isPlain ha).append hb

/-- There are as many calls as groups. -/
theorem countP_isCall (h : Grouped code sites) : code.countP Instruction.isCall = sites.length := by
  induction h with
  | nil => rfl
  | @other i _ _ plain _ ih =>
    have hi : i.isCall = false := (Bool.or_eq_false_iff.mp plain).2
    rw [List.countP_cons, hi, ih]
    rfl
  | call site _ ih =>
    rw [CallSite.code, List.countP_append, List.countP_append, countP_isCall_params, ih,
      List.length_cons, Nat.zero_add, Nat.add_comm]
    rfl

/-- Code in groups has handed nothing over at its end. -/
theorem lastParams_eq_nil (h : Grouped code sites) : lastParams code = [] := by
  induction h with
  | nil => rfl
  | other plain _ ih =>
    exact (lastParams_append_cons [] _ (Bool.or_eq_false_iff.mp plain).1).trans ih
  | call site _ ih =>
    rw [CallSite.code, List.append_assoc, List.singleton_append]
    exact (lastParams_append_cons _ _ rfl).trans ih

/-- **What is handed over or called belongs to a group**, and the groups before it are complete. -/
theorem split (h : Grouped code sites) (hi : i.isPassing = true) :
    code = pre ++ i :: post →
    ∃ before earlier site Y Z after, Grouped before earlier ∧ sites[earlier.length]? = some site ∧
      pre = before ++ Y ∧ site.code = Y ++ i :: Z ∧ post = Z ++ after := by
  induction h generalizing pre with
  | nil =>
    intro hsplit
    cases pre <;> cases hsplit
  | @other j code sites plain _ ih =>
    intro hsplit
    cases pre with
    | nil =>
      obtain ⟨rfl, -⟩ := List.cons.inj hsplit
      rw [plain] at hi
      cases hi
    | cons k pre =>
      obtain ⟨rfl, hcode⟩ := List.cons.inj hsplit
      obtain ⟨before, earlier, site, Y, Z, after, hbefore, hsite, rfl, hgroup⟩ := ih hcode
      exact ⟨j :: before, earlier, site, Y, Z, after, .other plain hbefore, hsite, rfl, hgroup⟩
  | @call code sites site rest ih =>
    intro hsplit
    -- the instruction is in the first group, or in the code after it
    rcases Code.eq_append_cons_or hsplit with ⟨Z, hgroup, hpost⟩ | ⟨later, hpre, hcode⟩
    · exact ⟨[], [], site, pre, Z, code, .nil, rfl, rfl, hgroup, hpost⟩
    · obtain ⟨before, earlier, other, Y, Z, after, hbefore, hother, rfl, hgroup⟩ := ih hcode
      refine ⟨site.code ++ before, site :: earlier, other, Y, Z, after, .call site hbefore, hother,
        ?_, hgroup⟩
      rw [hpre, List.append_assoc]

end Grouped

end Code

/-! ## 3. Lowering groups the code -/

mutual

/-- **The code of an expression is in groups**, one for each of its calls. -/
theorem Expr.grouped_lower (temps : Nat) : (e : Expr) →
    Code.Grouped (e.lower temps).code (e.callSites temps)
  | .number _ | .string _ | .ident _ => .nil
  | .binary op left right => by
    have hleft := Expr.grouped_lower temps left
    have hright := Expr.grouped_lower (left.lower temps).temps right
    rw [(Expr.temporaries_lower temps left).1] at hright
    rw [Expr.lower, Expr.callSites, (Expr.temporaries_lower temps left).1]
    exact (hleft.append hright).append_plain rfl
  | .unary op operand => by
    have hoperand := Expr.grouped_lower temps operand
    exact hoperand.append_plain rfl
  | .call callee args => by
    have hargs := Expr.grouped_lowerAll temps args
    have hsite : (Expr.lowerAll temps args).operands.map Instruction.param ++
        [.call (temp ((Expr.lowerAll temps args).temps + 1)) callee.name
          (Expr.lowerAll temps args).operands.length] = CallSite.code ⟨temps, callee, args⟩ := by
      rw [Expr.operands_lowerAll, Expr.length_holders, (Expr.temporaries_lowerAll temps args).1]
      rfl
    rw [Expr.lower, Expr.callSites, List.append_assoc, hsite]
    have hgroup := hargs.append (.call ⟨temps, callee, args⟩ .nil)
    rwa [List.append_nil] at hgroup

theorem Expr.grouped_lowerAll (temps : Nat) : (es : List Expr) →
    Code.Grouped (Expr.lowerAll temps es).code (Expr.callSitesAll temps es)
  | [] => .nil
  | e :: es => by
    have he := Expr.grouped_lower temps e
    have hes := Expr.grouped_lowerAll (e.lower temps).temps es
    rw [(Expr.temporaries_lower temps e).1] at hes
    rw [Expr.lowerAll, Expr.callSitesAll, (Expr.temporaries_lower temps e).1]
    exact he.append hes

end

theorem Declaration.grouped_lower (supply : Supply) (decl : Declaration) :
    Code.Grouped (decl.lower supply).code (Expr.callSitesOption supply.temps decl.init) := by
  obtain ⟨target, init⟩ := decl
  cases init with
  | none => exact .nil
  | some init => exact (init.grouped_lower supply.temps).append_plain rfl

theorem Assignment.grouped_lower (supply : Supply) (a : Assignment) :
    Code.Grouped (a.lower supply).code (a.value.callSites supply.temps) :=
  (a.value.grouped_lower supply.temps).append_plain rfl

mutual

/-- **The code of a statement is in groups.** -/
theorem Stmt.grouped_lower (supply : Supply) : (stmt : Stmt) →
    Code.Grouped (stmt.lower supply).code (stmt.callSites supply.temps)
  | .declare decl => Declaration.grouped_lower supply decl
  | .assign a => Assignment.grouped_lower supply a
  | .call callee args => Expr.grouped_lower supply.temps (.call callee args)
  | .ret none line => .of_isPlain rfl
  | .ret (some value) line => (value.grouped_lower supply.temps).append_plain rfl
  | .branch cond yes no => by
    have htest := cond.grouped_lower supply.temps
    have hblock := Stmt.grouped_lowerAll ⟨supply.temps + cond.operations, supply.labels + 2⟩ yes
    have hother := Stmt.grouped_lowerElse (Stmt.lowerAll
      ⟨supply.temps + cond.operations, supply.labels + 2⟩ yes).supply no
    rw [(Stmt.temporaries_lowerAll _ yes).1] at hother
    rw [Stmt.lower, Stmt.callSites]
    simp only [(Expr.temporaries_lower supply.temps cond).1, (Stmt.temporaries_lowerAll _ yes).1]
    refine Code.Grouped.append_plain (.append (.append_plain (.append ?_ hblock) rfl) hother) rfl
    exact htest.append_plain rfl
  | .loop init cond step body => by
    have hhead := Declaration.grouped_lower supply init
    have htest := cond.grouped_lower (supply.temps + init.operations)
    have hblock := Stmt.grouped_lowerAll
      ⟨supply.temps + init.operations + cond.operations, supply.labels + 2⟩ body
    have hend := Assignment.grouped_lower (Stmt.lowerAll
      ⟨supply.temps + init.operations + cond.operations, supply.labels + 2⟩ body).supply step
    rw [(Stmt.temporaries_lowerAll _ body).1] at hend
    rw [Stmt.lower, Stmt.callSites]
    simp only [(Declaration.temporaries_lower supply init).1,
      (Expr.temporaries_lower _ cond).1, (Stmt.temporaries_lowerAll _ body).1]
    refine Code.Grouped.append_plain (.append (.append (.append_plain ?_ rfl) hblock) hend) rfl
    exact (hhead.append_plain rfl).append htest

theorem Stmt.grouped_lowerAll (supply : Supply) : (stmts : List Stmt) →
    Code.Grouped (Stmt.lowerAll supply stmts).code (Stmt.callSitesAll supply.temps stmts)
  | [] => .nil
  | stmt :: stmts => by
    have hstmt := Stmt.grouped_lower supply stmt
    have hstmts := Stmt.grouped_lowerAll (stmt.lower supply).supply stmts
    rw [(Stmt.temporaries_lower supply stmt).1] at hstmts
    rw [Stmt.lowerAll, Stmt.callSitesAll, (Stmt.temporaries_lower supply stmt).1]
    exact hstmt.append hstmts

theorem Stmt.grouped_lowerElse (supply : Supply) : (no : Option (List Stmt)) →
    Code.Grouped (Stmt.lowerElse supply no).code (Stmt.callSitesElse supply.temps no)
  | none => .nil
  | some stmts => Stmt.grouped_lowerAll supply stmts

end

namespace Function

/-- **The code of functions is in groups.** -/
theorem grouped_lowerAll (fs : List Function) : ∀ supply : Supply,
    Code.Grouped (lowerAll supply fs).code (callSitesAll supply.temps fs) := by
  induction fs with
  | nil => exact fun _ => .nil
  | cons f fs ih =>
    intro supply
    have hbody := Stmt.grouped_lowerAll supply f.body
    have hf : Code.Grouped (f.lower supply).code (Stmt.callSitesAll supply.temps f.body) :=
      (Code.Grouped.plain_append rfl hbody).append_plain rfl
    have hfs := ih (f.lower supply).supply
    rw [temps_lower] at hfs
    exact hf.append hfs

end Function

/-! ## 4. Programs -/

namespace CallSite

variable {site : CallSite} {Y Z : Code}

/-- An instruction of a group hands over an argument or is the call. -/
theorem code_eq_append_cons {i : Instruction} (h : site.code = Y ++ i :: Z) :
    (∃ ws w ws', site.handed = ws ++ w :: ws' ∧ Y = ws.map .param ∧ i = .param w ∧
      Z = ws'.map .param ++ [site.instruction]) ∨
    Y = site.handed.map .param ∧ i = site.instruction := by
  rcases Code.eq_append_cons_or h with ⟨later, hparams, rfl⟩ | ⟨earlier, hY, hcall⟩
  · obtain ⟨ws, rest, hhanded, rfl, hrest⟩ := List.map_eq_append_iff.mp hparams
    obtain ⟨w, ws', rfl, rfl, rfl⟩ := List.map_eq_cons_iff.mp hrest
    exact .inl ⟨ws, w, ws', hhanded, rfl, rfl, rfl⟩
  · cases earlier with
    | nil =>
      obtain ⟨hi, -⟩ := List.cons.inj hcall
      exact .inr ⟨by rw [hY, List.append_nil], hi.symm⟩
    | cons j earlier => simp at hcall

end CallSite

namespace Code.Grouped

variable {code pre post before : Code} {sites earlier : List CallSite}

/-- After complete groups, the next arguments that are handed over wait for the next call. -/
theorem append_params (h : Grouped before earlier) (ws : List String) :
    List.countP Instruction.isCall (before ++ ws.map .param) = earlier.length ∧
      lastParams (before ++ ws.map .param) = ws.map .param := by
  refine ⟨?_, ?_⟩
  · rw [List.countP_append, h.countP_isCall, countP_isCall_params, Nat.add_zero]
  · rw [lastParams_append_params, h.lastParams_eq_nil, List.nil_append]

/-- A call takes the arguments that have been handed over right before it. -/
theorem lastParams_of_call (h : Grouped code sites) {dest callee : String} {argc : Nat}
    (hcode : code = pre ++ .call dest callee argc :: post) :
    ∃ site, sites[pre.countP Instruction.isCall]? = some site ∧
      site.instruction = .call dest callee argc ∧ lastParams pre = site.handed.map .param := by
  obtain ⟨before, earlier, site, Y, Z, after, hbefore, hsite, rfl, hgroup, rfl⟩ := h.split rfl hcode
  rcases site.code_eq_append_cons hgroup with ⟨_, w, _, -, -, hparam, -⟩ | ⟨rfl, hcall⟩
  · cases hparam
  · obtain ⟨hcount, hlast⟩ := hbefore.append_params site.handed
    rw [hcount]
    exact ⟨site, hsite, hcall.symm, hlast⟩

/-- An argument is handed over among the arguments of the next call. -/
theorem lastParams_of_param (h : Grouped code sites) {w : String}
    (hcode : code = pre ++ .param w :: post) :
    ∃ site ws ws' rest, sites[pre.countP Instruction.isCall]? = some site ∧
      site.handed = ws ++ w :: ws' ∧ lastParams pre = ws.map .param ∧
      post = ws'.map .param ++ site.instruction :: rest := by
  obtain ⟨before, earlier, site, Y, Z, after, hbefore, hsite, rfl, hgroup, rfl⟩ := h.split rfl hcode
  rcases site.code_eq_append_cons hgroup with ⟨ws, v, ws', hhanded, rfl, hv, rfl⟩ | ⟨-, hcall⟩
  · cases hv
    obtain ⟨hcount, hlast⟩ := hbefore.append_params ws
    rw [hcount, List.append_assoc]
    exact ⟨site, ws, ws', after, hsite, hhanded, hlast, rfl⟩
  · cases hcall

end Code.Grouped

/-- **Arguments that are handed over belong to the next call.** The code has one call for each call
    of the program, in post-order. What is handed over right before a call are the operands of its
    arguments from left to right, and these are as many as the call says; and nothing is handed over
    but as one of these operands, with those on its left right before it and those on its right
    and the call right after it. -/
theorem Program.params_belong_to_next_call (program : Program) :
    program.lower.countP Instruction.isCall = program.callSites.length ∧
    (∀ pre post dest callee argc, program.lower = pre ++ .call dest callee argc :: post →
      ∃ site, program.callSites[pre.countP Instruction.isCall]? = some site ∧
        site.instruction = .call dest callee argc ∧
        Code.lastParams pre = site.handed.map .param ∧ site.handed.length = argc) ∧
    (∀ pre post w, program.lower = pre ++ .param w :: post →
      ∃ site ws ws' rest, program.callSites[pre.countP Instruction.isCall]? = some site ∧
        site.handed = ws ++ w :: ws' ∧ Code.lastParams pre = ws.map .param ∧
        post = ws'.map .param ++ site.instruction :: rest) := by
  have hgrouped : Code.Grouped program.lower program.callSites :=
    Function.grouped_lowerAll program ⟨0, 0⟩
  refine ⟨hgrouped.countP_isCall, ?_, ?_⟩
  · intro pre post dest callee argc hcode
    obtain ⟨site, hsite, hcall, hlast⟩ := hgrouped.lastParams_of_call hcode
    refine ⟨site, hsite, hcall, hlast, ?_⟩
    obtain ⟨-, -, rfl⟩ := Instruction.call.inj hcall
    exact Expr.length_holders site.args site.taken
  · intro pre post w hcode
    exact hgrouped.lastParams_of_param hcode

/-- A call between other arguments of a call. -/
def callInArguments : Program :=
  [⟨.void, ⟨"f", 1⟩, [⟨.int, ⟨"a", 1⟩⟩],
    [.call ⟨"g", 1⟩ [.ident ⟨"a", 1⟩,
      .call ⟨"h", 1⟩ [.binary .add (.ident ⟨"a", 1⟩) (.number "1"), .ident ⟨"a", 1⟩],
      .number "2"]]⟩]

theorem Program.params_belong_to_next_call_callInArguments :
    callInArguments.lower.countP Instruction.isCall = 2 ∧
    (callInArguments.lower =
      callInArguments.lower.take 8 ++ .call "t3" "g" 3 :: callInArguments.lower.drop 9) ∧
    Code.lastParams (callInArguments.lower.take 8) = [.param "a", .param "t2", .param "2"] ∧
    (callInArguments.lower =
      callInArguments.lower.take 3 ++ .param "a" :: callInArguments.lower.drop 4) ∧
    ∃ site ws ws' rest, callInArguments.callSites[0]? = some site ∧
      site.handed = ws ++ "a" :: ws' ∧
      Code.lastParams (callInArguments.lower.take 3) = ws.map .param ∧
      callInArguments.lower.drop 4 = ws'.map .param ++ site.instruction :: rest := by
  obtain ⟨hcount, hcalls, hparams⟩ := Program.params_belong_to_next_call callInArguments
  obtain ⟨site, hsite, -, hlast, -⟩ :=
    hcalls (callInArguments.lower.take 8) (callInArguments.lower.drop 9) "t3" "g" 3 rfl
  cases hsite
  exact ⟨hcount, rfl, hlast, rfl,
    hparams (callInArguments.lower.take 3) (callInArguments.lower.drop 4) "a" rfl⟩

end MiniC
