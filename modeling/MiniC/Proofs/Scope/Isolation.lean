import Mathlib
import MiniC.Proofs.Scope.Runs

/-!
# What a scope sees

From a scope one path leads from parent to parent out to the global scope. A name that is looked up
there is the one that the nearest scope on the path holds, and nothing that lies off the path
matters. So entering and leaving scopes changes no answer, and a declaration changes the answers for
one name only, in its own scope and in those scopes inside it from which no nearer scope is seen to
hold the name. Main statement: `SymbolTable.lookups_isolated`.
-/

namespace MiniC

namespace SymbolTable

variable {table table' : SymbolTable}

/-! ## 1. The nearest scope that holds a name -/

/-- The symbol of that name declared directly in scope `i`. -/
def held (table : SymbolTable) (i : Nat) (name : String) : Option Symbol :=
  (table.scope? i).bind (·.get? name)

theorem held_eq_find? (table : SymbolTable) (i : Nat) (name : String) :
    table.held i name = (table.symbolsAt i).find? (·.name = name) := by
  rw [held, symbolsAt]
  cases table.scope? i <;> rfl

theorem lookupFrom_eq_findSome? (table : SymbolTable) (i : Nat) (name : String) :
    table.lookupFrom i name = (table.ancestors i).findSome? (table.held · name) := rfl

/-- Scope `j` lies on the path, and no scope nearer than it holds the name. -/
def Unshadowed (table : SymbolTable) (name : String) (path : List Nat) (j : Nat) : Prop :=
  ∃ nearer outer, path = nearer ++ j :: outer ∧ ∀ k ∈ nearer, table.held k name = none

/-- **What a name stands for along a path**: the symbol that the nearest scope holds, or nothing if
    none holds the name. -/
inductive Answer (table : SymbolTable) (name : String) (path : List Nat) :
    Option Symbol → Prop where
  | found {j : Nat} {symbol : Symbol} (nearest : table.Unshadowed name path j)
      (holds : table.held j name = some symbol) : Answer table name path (some symbol)
  | missing (free : ∀ j ∈ path, table.held j name = none) : Answer table name path none

theorem answer_findSome? (table : SymbolTable) (name : String) (path : List Nat) :
    table.Answer name path (path.findSome? (table.held · name)) := by
  cases h : path.findSome? (table.held · name) with
  | none => exact .missing (List.findSome?_eq_none_iff.mp h)
  | some symbol =>
    obtain ⟨nearer, j, outer, hpath, hholds, hnearer⟩ := List.findSome?_eq_some_iff.mp h
    exact .found ⟨nearer, outer, hpath, hnearer⟩ hholds

/-- Only what the scopes on the path hold matters. -/
theorem findSome?_held_congr {name : String} {path : List Nat}
    (h : ∀ j ∈ path, table'.held j name = table.held j name) :
    path.findSome? (table'.held · name) = path.findSome? (table.held · name) := by
  induction path with
  | nil => rfl
  | cons j path ih =>
    obtain ⟨hj, hpath⟩ := List.forall_mem_cons.mp h
    rw [List.findSome?_cons, List.findSome?_cons, hj, ih hpath]

theorem lookupFrom_congr {i : Nat} {name : String} (hpath : table'.ancestors i = table.ancestors i)
    (hheld : ∀ j ∈ table.ancestors i, table'.held j name = table.held j name) :
    table'.lookupFrom i name = table.lookupFrom i name := by
  rw [lookupFrom_eq_findSome?, lookupFrom_eq_findSome?, hpath, findSome?_held_congr hheld]

/-! ## 2. The path out of a scope -/

/-- There is one path out of a scope. -/
theorem LeadsOut.eq_ancestors (hwf : table.WellFormed) (hroot : table.parent? globalScope = none)
    {path : List Nat} : ∀ {i : Nat}, table.LeadsOut i path → path = table.ancestors i := by
  induction path with
  | nil =>
    intro i h
    exact absurd h.head (by simp)
  | cons j path ih =>
    intro i h
    have hji : j = i := Option.some.inj h.head
    subst hji
    cases path with
    | nil =>
      have hglobal : j = globalScope := Option.some.inj h.last
      rw [hglobal, ancestors_of_root hroot]
    | cons p path =>
      obtain ⟨hparent, hchain⟩ := List.isChain_cons_cons.mp h.chain
      have hlast := h.last
      rw [List.getLast?_cons_cons] at hlast
      have hrest : table.LeadsOut p (p :: path) :=
        ⟨rfl, hlast, hchain, (List.pairwise_cons.mp h.decreasing).2⟩
      rw [ancestors_of_parent hparent (hwf.parent_lt j p hparent), ← ih hrest]

theorem Consistent.parent?_globalScope (h : table.Consistent) :
    table.parent? globalScope = none := by
  refine (h.parent?_eq_none_iff globalScope ?_).mpr rfl
  exact Nat.lt_of_le_of_lt (Nat.zero_le _) h.wellFormed.current_lt

theorem Consistent.eq_ancestors (h : table.Consistent) {i : Nat} {path : List Nat}
    (hpath : table.LeadsOut i path) : path = table.ancestors i :=
  hpath.eq_ancestors h.wellFormed h.parent?_globalScope

/-- A table that persists keeps the paths out of its scopes. -/
theorem Persists.ancestors_eq (h : table.Persists table') {i : Nat} (hi : i < table.scopes.size) :
    table'.ancestors i = table.ancestors i :=
  ancestors_congr i fun _ hj => h.parent?_eq (Nat.lt_of_le_of_lt hj hi)

/-! ## 3. Entering and leaving -/

/-- Entering a scope changes nothing for the scopes that are there. -/
theorem lookupFrom_enter {i : Nat} (hi : i < table.scopes.size) (scope name : String) :
    (table.enter scope).lookupFrom i name = table.lookupFrom i name := by
  have hpath : (table.enter scope).ancestors i = table.ancestors i :=
    (persists_perform table (.enter scope)).ancestors_eq hi
  refine lookupFrom_congr hpath fun j hj => ?_
  have hle := le_of_mem_ancestors i hj
  rw [held, scope?_enter_of_lt (Nat.lt_of_le_of_lt hle hi), held]

/-- Leaving a scope changes nothing at all. -/
theorem lookupFrom_leave (table : SymbolTable) (i : Nat) (name : String) :
    table.leave.lookupFrom i name = table.lookupFrom i name :=
  lookupFrom_congr (ancestors_congr i fun _ _ => rfl) fun _ _ => rfl

/-! ## 4. Declaring -/

section Declare

variable {s : Nat} {symbol : Symbol}

/-- A declaration is refused exactly when its scope holds the name. -/
theorem declare?_eq_none_iff_held (hs : s < table.scopes.size) :
    table.declare? s symbol = none ↔ (table.held s symbol.name).isSome := by
  rw [declare?_eq_none_iff hs, held_eq_find?, List.find?_isSome]
  simp only [decide_eq_true_eq]

theorem held_declare?_self (h : table.declare? s symbol = some table') :
    table'.held s symbol.name = some symbol := by
  obtain ⟨-, -, -, -, hhere, hfree⟩ := of_declare? h
  have hnone : (table.symbolsAt s).find? (·.name = symbol.name) = none := by
    rw [List.find?_eq_none]
    intro found hfound
    simpa using hfree found hfound
  rw [held_eq_find?, hhere, List.find?_append, hnone]
  simp

theorem held_declare?_of_ne (h : table.declare? s symbol = some table') {i : Nat} {name : String}
    (hne : i ≠ s ∨ name ≠ symbol.name) : table'.held i name = table.held i name := by
  obtain ⟨-, -, -, hother, hhere, -⟩ := of_declare? h
  rw [held_eq_find?, held_eq_find?]
  by_cases his : i = s
  · have hname : ¬ symbol.name = name := fun heq => (hne.resolve_left fun hi => hi his) heq.symm
    rw [his, hhere, List.find?_append]
    simp [hname]
  · rw [hother i his]

theorem ancestors_declare? (h : table.declare? s symbol = some table') (i : Nat) :
    table'.ancestors i = table.ancestors i :=
  ancestors_congr i fun j _ => (of_declare? h).2.2.1 j

/-- **Where no nearer scope holds the name, the declared symbol is seen.** -/
theorem lookupFrom_declare?_of_unshadowed (h : table.declare? s symbol = some table') {i : Nat}
    (hseen : table.Unshadowed symbol.name (table.ancestors i) s) :
    table'.lookupFrom i symbol.name = some symbol := by
  obtain ⟨nearer, outer, hpath, hnearer⟩ := hseen
  rw [lookupFrom_eq_findSome?, ancestors_declare? h, hpath]
  clear hpath
  induction nearer with
  | nil => rw [List.nil_append, List.findSome?_cons, held_declare?_self h]
  | cons k nearer ih =>
    obtain ⟨hk, hnearer⟩ := List.forall_mem_cons.mp hnearer
    rw [List.cons_append, List.findSome?_cons]
    by_cases hks : k = s
    · rw [hks, held_declare?_self h]
    · rw [held_declare?_of_ne h (.inl hks), hk]
      exact ih hnearer

/-- **A declaration is not seen under another name, from a scope that does not lie inside its own, or
    behind a nearer scope that holds the name.** -/
theorem lookupFrom_declare?_of_not (h : table.declare? s symbol = some table') {i : Nat}
    {name : String}
    (hnot : ¬ (name = symbol.name ∧ table.Unshadowed name (table.ancestors i) s)) :
    table'.lookupFrom i name = table.lookupFrom i name := by
  by_cases hname : name = symbol.name
  · by_cases hmem : s ∈ table.ancestors i
    · obtain ⟨nearer, outer, hpath, hfirst⟩ := List.eq_append_cons_of_mem hmem
      have hsame : nearer.findSome? (table'.held · name) = nearer.findSome? (table.held · name) :=
        findSome?_held_congr fun k hk => held_declare?_of_ne h (.inl fun hks => hfirst (hks ▸ hk))
      cases hnearer : nearer.findSome? (table.held · name) with
      | none =>
        have hfree := List.findSome?_eq_none_iff.mp hnearer
        exact absurd ⟨hname, nearer, outer, hpath, hfree⟩ hnot
      | some found =>
        rw [lookupFrom_eq_findSome?, lookupFrom_eq_findSome?, ancestors_declare? h, hpath,
          List.findSome?_append, List.findSome?_append, hsame, hnearer, Option.some_or,
          Option.some_or]
    · refine lookupFrom_congr (ancestors_declare? h i) fun j hj => ?_
      exact held_declare?_of_ne h (.inl fun hjs => hmem (hjs ▸ hj))
  · exact lookupFrom_congr (ancestors_declare? h i) fun j _ => held_declare?_of_ne h (.inr hname)

end Declare

/-! ## 5. Scopes that lie around and beside a scope -/

/-- Scope `i` lies properly around scope `s`. -/
def Around (table : SymbolTable) (i s : Nat) : Prop := i ≠ s ∧ i ∈ table.ancestors s

/-- Scopes `i` and `s` lie side by side in one scope. -/
def Beside (table : SymbolTable) (i s : Nat) : Prop := i ≠ s ∧ table.parent? i = table.parent? s

/-- The path out of a scope leads neither into the scopes inside it nor into those beside it. -/
theorem Consistent.not_mem_ancestors (h : table.Consistent) {i s : Nat}
    (hi : i < table.scopes.size) (hs : s < table.scopes.size)
    (hplace : table.Around i s ∨ table.Beside i s) : s ∉ table.ancestors i := by
  intro hmem
  rcases hplace with ⟨hne, haround⟩ | ⟨hne, hparent⟩
  · have hle := le_of_mem_ancestors s haround
    have hge := le_of_mem_ancestors i hmem
    omega
  · cases hp : table.parent? i with
    | none =>
      have hi' := (h.parent?_eq_none_iff i hi).mp hp
      have hs' := (h.parent?_eq_none_iff s hs).mp (hparent.symm.trans hp)
      exact hne (hi'.trans hs'.symm)
    | some p =>
      rw [ancestors_of_parent hp (h.wellFormed.parent_lt i p hp)] at hmem
      rcases List.mem_cons.mp hmem with heq | hmem
      · exact hne heq.symm
      · have hlt := h.wellFormed.parent_lt s p (hparent.symm.trans hp)
        have hle := le_of_mem_ancestors p hmem
        omega

/-! ## 6. Reachable tables -/

/-- **Scopes are isolated from each other.** In every table that operations make of the new one, one
    path leads out of each scope, and a name stands for what the nearest scope on that path holds.
    Entering and leaving a scope change no answer for a scope that is there. A declaration is refused
    exactly when its scope holds the name, and then the table stays as it is. A declaration that is
    accepted gives its symbol as the answer for its name wherever its scope is on the path and no
    nearer scope holds the name, and changes no other answer; the scopes around and beside its scope
    never have that scope on their path, whatever is done later. -/
theorem lookups_isolated {ops : List Operation} (h : Run new ops table) :
    (∀ i < table.scopes.size, ∃ path, table.LeadsOut i path) ∧
    (∀ i < table.scopes.size, ∀ path, table.LeadsOut i path → ∀ name,
      table.Answer name path (table.lookupFrom i name)) ∧
    (∀ i < table.scopes.size, ∀ scope name,
      (table.enter scope).lookupFrom i name = table.lookupFrom i name ∧
      table.leave.lookupFrom i name = table.lookupFrom i name) ∧
    (∀ s < table.scopes.size, ∀ symbol,
      (table.declare? s symbol = none ↔ (table.held s symbol.name).isSome) ∧
      (table.declare? s symbol = none → table.perform (.declare s symbol) = table)) ∧
    (∀ s < table.scopes.size, ∀ symbol table', table.declare? s symbol = some table' →
      table.perform (.declare s symbol) = table' ∧
      ∀ i < table.scopes.size, ∀ path, table.LeadsOut i path → ∀ name,
        (name = symbol.name → table.Unshadowed name path s →
          table'.lookupFrom i name = some symbol) ∧
        (¬ (name = symbol.name ∧ table.Unshadowed name path s) →
          table'.lookupFrom i name = table.lookupFrom i name) ∧
        (table.Around i s ∨ table.Beside i s →
          table'.lookupFrom i name = table.lookupFrom i name ∧
          ∀ later table'', Run table' later table'' →
            ∀ path', table''.LeadsOut i path' → s ∉ path')) := by
  have hconsistent := h.consistent consistent_new
  refine ⟨fun i hi => ⟨_, hconsistent.leadsOut_ancestors i hi⟩, fun i hi path hpath name => ?_,
    fun i hi scope name => ⟨lookupFrom_enter hi scope name, lookupFrom_leave table i name⟩,
    fun s hs symbol => ⟨declare?_eq_none_iff_held hs, fun hrefused => ?_⟩,
    fun s hs symbol table' haccepted => ⟨?_, fun i hi path hpath name => ?_⟩⟩
  · rw [hconsistent.eq_ancestors hpath]
    exact answer_findSome? table name _
  · rw [perform, hrefused, Option.getD_none]
  · rw [perform, haccepted, Option.getD_some]
  · have hpath := hconsistent.eq_ancestors hpath
    subst hpath
    refine ⟨?_, lookupFrom_declare?_of_not haccepted, fun hplace => ?_⟩
    · rintro rfl hseen
      exact lookupFrom_declare?_of_unshadowed haccepted hseen
    · have hoff := hconsistent.not_mem_ancestors hi hs hplace
      refine ⟨lookupFrom_declare?_of_not haccepted ?_,
        fun later table'' hlater path' hpath' hmem => ?_⟩
      · rintro ⟨-, nearer, outer, hpath, -⟩
        exact hoff (hpath ▸ List.mem_append_right _ List.mem_cons_self)
      · have hconsistent' := hconsistent.perform (.declare s symbol)
        rw [perform, haccepted, Option.getD_some] at hconsistent'
        have hi' : i < table'.scopes.size := by rw [(of_declare? haccepted).2.1]; exact hi
        rw [(hlater.consistent hconsistent').eq_ancestors hpath',
          hlater.persists.ancestors_eq hi', ancestors_declare? haccepted] at hmem
        exact hoff hmem

/-- A name declared in a function and again in a block of it, and a second block beside that one. -/
def shadowingOps : List Operation :=
  [.enter "main", .declare 1 ⟨"x", .var 1⟩, .enter "block", .leave, .enter "block",
    .declare 3 ⟨"y", .var 4⟩]

/-- A variable declared in the first block, after that block was left, hides the function's variable
    there, and the second block goes on seeing the function's. -/
theorem lookups_isolated_shadowingOps :
    Run new shadowingOps (shadowingOps.foldl perform new) ∧
      (∃ table', (shadowingOps.foldl perform new).declare? 2 ⟨"x", .var 3⟩ = some table' ∧
        table'.lookupFrom 2 "x" = some ⟨"x", .var 3⟩ ∧
        table'.lookupFrom 3 "x" = some ⟨"x", .var 1⟩) := by
  have hrun : Run new shadowingOps (shadowingOps.foldl perform new) :=
    .cons trivial <| .cons (by decide) <| .cons trivial <| .cons trivial <| .cons trivial <|
      .cons (by decide) <| .nil _
  refine ⟨hrun, _, rfl, ?_⟩
  obtain ⟨-, -, -, -, hdeclare⟩ := lookups_isolated hrun
  obtain ⟨-, hseen⟩ := hdeclare 2 (by decide) ⟨"x", .var 3⟩ _ rfl
  have hfirst : (shadowingOps.foldl perform new).LeadsOut 2 [2, 1, 0] :=
    ⟨rfl, rfl, by decide, by decide⟩
  have hsecond : (shadowingOps.foldl perform new).LeadsOut 3 [3, 1, 0] :=
    ⟨rfl, rfl, by decide, by decide⟩
  have hbeside : (shadowingOps.foldl perform new).Beside 3 2 := ⟨by decide, by decide⟩
  constructor
  · exact (hseen 2 (by decide) _ hfirst "x").1 rfl ⟨[], [1, 0], rfl, List.forall_mem_nil _⟩
  · rw [((hseen 3 (by decide) _ hsecond "x").2.2 (.inr hbeside)).1]
    cbv

end SymbolTable

end MiniC
