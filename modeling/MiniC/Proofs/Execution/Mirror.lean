import MiniC.Proofs.Execution.Follows
import MiniC.Proofs.Grammar.Words

/-!
# Environments in a frame

The machine keeps the variables and the temporaries of a function in one frame. A frame mirrors an
environment when it holds the value of every variable that has one; this is kept by everything that
happens to temporaries only, because a variable that is not spelled like a temporary never is one.
-/

namespace MiniC

universe u

variable {Value : Type u}

/-! ## 1. The meaning of words -/

namespace Interpretation

variable (I : Interpretation Value) (frame : Frame Value)

theorem operand_name {x : String} (h : IsName x) : I.operand frame x = frame x := by
  obtain ⟨c, cs, hx, hc⟩ := h
  have hquote : c ≠ '"' := by
    intro heq
    subst heq
    revert hc
    decide
  have hdigit : ¬ c.isDigit = true := by simp [Token.isDigit_eq_false_of_isNameStart hc]
  simp only [operand, hx]
  rw [if_neg hquote, if_neg hdigit]

theorem operand_number {x : String} (h : IsNumber x) : I.operand frame x = some (I.number x) := by
  obtain ⟨c, cs, hx, hc⟩ := h
  have hquote : c ≠ '"' := by
    intro heq
    subst heq
    revert hc
    decide
  simp only [operand, hx]
  rw [if_neg hquote, if_pos hc]

theorem operand_string (value : String) :
    I.operand frame ("\"" ++ value ++ "\"") = some (I.string value) := by
  have hlist : ("\"" ++ value ++ "\"").toList = '"' :: (value.toList ++ ['"']) := by
    simp
  simp only [operand, hlist]
  rw [if_pos trivial, List.dropLast_concat, String.ofList_toList]

end Interpretation

/-- Whether the word is spelled like a temporary: a `t` followed by decimal digits. -/
def spellsTemp (x : String) : Bool :=
  match x.toList with
  | 't' :: digit :: digits => (digit :: digits).all Char.isDigit
  | _ => false

theorem spellsTemp_temp (n : Nat) : spellsTemp (temp n) = true := by
  have hdigits : ∀ c ∈ Nat.toDigits 10 n, c.isDigit = true := fun c hc =>
    Nat.isDigit_of_mem_toDigits (by decide) (by decide) hc
  simp only [spellsTemp, toList_temp]
  cases h : Nat.toDigits 10 n with
  | nil => exact absurd h Nat.toDigits_ne_nil
  | cons digit digits =>
    rw [h] at hdigits
    exact List.all_eq_true.mpr hdigits

/-- A word that is not spelled like a temporary is none. -/
theorem ne_temp_of_spellsTemp {x : String} (h : spellsTemp x = false) (n : Nat) : x ≠ temp n := by
  rintro rfl
  rw [spellsTemp_temp] at h
  cases h

theorem isName_temp (n : Nat) : IsName (temp n) := ⟨'t', _, toList_temp n, by decide⟩

/-- The word is a name, and none that a temporary can have. -/
structure IsVariableName (x : String) : Prop where
  isName : IsName x
  not_temp : spellsTemp x = false

theorem IsVariableName.ne_temp {x : String} (h : IsVariableName x) (n : Nat) : x ≠ temp n :=
  ne_temp_of_spellsTemp h.not_temp n

/-! ## 2. Temporaries in a frame -/

namespace Frame

/-- The frames give every word the same value, the temporaries after the first `n` aside. -/
def SameUpTo (n : Nat) (frame frame' : Frame Value) : Prop :=
  ∀ x, (∀ k, n < k → x ≠ temp k) → frame' x = frame x

variable {n : Nat} {frame frame' frame'' : Frame Value}

theorem SameUpTo.refl (n : Nat) (frame : Frame Value) : SameUpTo n frame frame := fun _ _ => rfl

theorem SameUpTo.trans (h : SameUpTo n frame frame') (h' : SameUpTo n frame' frame'') :
    SameUpTo n frame frame'' :=
  fun x hx => (h' x hx).trans (h x hx)

theorem SameUpTo.of_le {m : Nat} (hle : m ≤ n) (h : SameUpTo n frame frame') :
    SameUpTo m frame frame' :=
  fun x hx => h x fun k hk => hx k (by omega)

theorem SameUpTo.set_temp {k : Nat} (hlt : n < k) (frame : Frame Value) (value : Value) :
    SameUpTo n frame (frame.set (temp k) value) :=
  fun _ hx => set_of_ne _ (hx k hlt) value

theorem SameUpTo.temp (h : SameUpTo n frame frame') : frame' (temp n) = frame (temp n) :=
  h _ fun k hk heq => by
    have := temp_injective heq
    omega

theorem SameUpTo.variable (h : SameUpTo n frame frame') {x : String} (hx : IsVariableName x) :
    frame' x = frame x :=
  h x fun k _ => hx.ne_temp k

end Frame

/-! ## 3. Environments -/

namespace Env

variable {env : Env Value} {x : String} {value : Value}

theorem mem_of_lookup {slot : Option Value} (h : env.lookup x = some slot) : (x, slot) ∈ env := by
  obtain ⟨front, back, rfl, -⟩ := List.lookup_eq_some_iff.mp h
  simp

theorem exists_lookup (h : x ∈ env.names) : ∃ slot, env.lookup x = some slot := by
  obtain ⟨⟨y, slot⟩, hmem, rfl⟩ := List.mem_map.mp h
  cases hlookup : env.lookup y with
  | some found => exact ⟨found, rfl⟩
  | none =>
    have := List.lookup_eq_none_iff.mp hlookup (y, slot) hmem
    simp at this

/-- A variable that is there can be given a value. -/
theorem exists_set? (h : x ∈ env.names) (value : Value) : ∃ env', env.set? x value = some env' := by
  induction env with
  | nil => cases h
  | cons entry env ih =>
    obtain ⟨y, old⟩ := entry
    by_cases hy : y = x
    · exact ⟨_, if_pos hy⟩
    · have htail : x ∈ names env := by
        rcases List.mem_cons.mp h with h | h
        · exact absurd h.symm hy
        · exact h
      obtain ⟨env', henv'⟩ := ih htail
      refine ⟨(y, old) :: env', ?_⟩
      rw [set?, if_neg hy, henv']
      rfl

/-- Giving a value changes no name and touches one variable only. -/
theorem of_set? {env' : Env Value} (h : env.set? x value = some env') :
    env'.names = env.names ∧ (x, some value) ∈ env' ∧
      ∀ entry ∈ env', entry = (x, some value) ∨ entry ∈ env := by
  induction env generalizing env' with
  | nil => cases h
  | cons entry env ih =>
    obtain ⟨y, old⟩ := entry
    rw [set?] at h
    split at h
    case isTrue hy =>
      cases h
      refine ⟨rfl, by rw [hy]; exact List.mem_cons_self, fun entry hentry => ?_⟩
      rcases List.mem_cons.mp hentry with rfl | hentry
      · exact .inl (by rw [hy])
      · exact .inr (List.mem_cons_of_mem _ hentry)
    case isFalse =>
      obtain ⟨tail, htail, rfl⟩ := Option.map_eq_some_iff.mp h
      obtain ⟨hnames, hset, hentries⟩ := ih htail
      refine ⟨congrArg (y :: ·) hnames, List.mem_cons_of_mem _ hset, fun entry hentry => ?_⟩
      rcases List.mem_cons.mp hentry with rfl | hentry
      · exact .inr List.mem_cons_self
      · rcases hentries entry hentry with h | h
        · exact .inl h
        · exact .inr (List.mem_cons_of_mem _ h)

/-- Among variables of different names, a name has one entry. -/
theorem eq_of_mem {a b : Option Value} (hnodup : env.names.Nodup) (ha : (x, a) ∈ env)
    (hb : (x, b) ∈ env) : a = b := by
  induction env with
  | nil => cases ha
  | cons entry env ih =>
    obtain ⟨hfresh, hnodup⟩ := List.nodup_cons.mp hnodup
    rcases List.mem_cons.mp ha with rfl | ha'
    · rcases List.mem_cons.mp hb with hb | hb
      · exact (congrArg Prod.snd hb).symm
      · exact absurd (List.mem_map.mpr ⟨_, hb, rfl⟩) hfresh
    · rcases List.mem_cons.mp hb with rfl | hb
      · exact absurd (List.mem_map.mpr ⟨_, ha', rfl⟩) hfresh
      · exact ih hnodup ha' hb

/-- The variables of the scopes around are the last ones. -/
theorem leave_eq_drop {outer env : Env Value} {inner : List String}
    (h : env.names = inner ++ outer.names) :
    env.leave outer = env.drop inner.length ∧ (env.leave outer).names = outer.names := by
  have hlength : env.length = inner.length + outer.length := by
    have := congrArg List.length h
    simpa [names] using this
  have hleave : env.leave outer = env.drop inner.length := by
    rw [leave, hlength, Nat.add_sub_cancel]
  refine ⟨hleave, ?_⟩
  rw [hleave, names, List.map_drop, ← names, h, List.drop_left]

end Env

/-- The frame holds the value of every variable of the environment that has one. No two variables
    share a name, and none can be a temporary. -/
structure Mirrors (env : Env Value) (frame : Frame Value) : Prop where
  value : ∀ x v, (x, some v) ∈ env → frame x = some v
  nodup : env.names.Nodup
  name : ∀ x ∈ env.names, IsVariableName x

namespace Mirrors

variable {env : Env Value} {frame frame' : Frame Value} {x : String}

theorem same {n : Nat} (h : Mirrors env frame) (hsame : frame.SameUpTo n frame') :
    Mirrors env frame' where
  value x v hmem := by
    have hname : x ∈ env.names := List.mem_map.mpr ⟨_, hmem, rfl⟩
    rw [hsame.variable (h.name x hname)]
    exact h.value x v hmem
  nodup := h.nodup
  name := h.name

/-- A new variable without a value. -/
theorem push (h : Mirrors env frame) (hx : IsVariableName x) (hfresh : x ∉ env.names) :
    Mirrors ((x, none) :: env) frame where
  value y v hmem := by
    rcases List.mem_cons.mp hmem with heq | hmem
    · cases heq
    · exact h.value y v hmem
  nodup := List.nodup_cons.mpr ⟨hfresh, h.nodup⟩
  name := List.forall_mem_cons.mpr ⟨hx, h.name⟩

/-- A new variable with a value, which the frame holds too. -/
theorem push_set (h : Mirrors env frame) (hx : IsVariableName x) (hfresh : x ∉ env.names)
    (value : Value) : Mirrors ((x, some value) :: env) (frame.set x value) where
  value y v hmem := by
    rcases List.mem_cons.mp hmem with heq | hmem
    · cases heq
      exact Frame.set_self frame x value
    · have hy : y ≠ x := fun heq => hfresh (List.mem_map.mpr ⟨_, hmem, heq⟩)
      rw [Frame.set_of_ne _ hy]
      exact h.value y v hmem
  nodup := List.nodup_cons.mpr ⟨hfresh, h.nodup⟩
  name := List.forall_mem_cons.mpr ⟨hx, h.name⟩

/-- Different variables have different names, so a new value reaches one variable only. -/
theorem set {env' : Env Value} {value : Value} (h : Mirrors env frame)
    (hset : env.set? x value = some env') : Mirrors env' (frame.set x value) := by
  obtain ⟨hnames, hmine, hentries⟩ := Env.of_set? hset
  have hnodup : env'.names.Nodup := by
    rw [hnames]
    exact h.nodup
  refine ⟨fun y v hmem => ?_, hnodup, by rw [hnames]; exact h.name⟩
  by_cases hy : y = x
  · rw [hy] at hmem ⊢
    rw [Frame.set_self, Env.eq_of_mem hnodup hmem hmine]
  · rw [Frame.set_of_ne _ hy]
    rcases hentries _ hmem with heq | hmem
    · exact absurd (congrArg Prod.fst heq) hy
    · exact h.value y v hmem

/-- Leaving a scope forgets variables and changes none. -/
theorem leave {outer : Env Value} {inner : List String} (h : Mirrors env frame)
    (hnames : env.names = inner ++ outer.names) : Mirrors (env.leave outer) frame := by
  obtain ⟨hdrop, hleave⟩ := Env.leave_eq_drop hnames
  have hsublist : List.Sublist outer.names env.names := by
    rw [hnames]
    exact List.sublist_append_right _ _
  refine ⟨fun x v hmem => h.value x v ?_, ?_, ?_⟩
  · rw [hdrop] at hmem
    exact List.mem_of_mem_drop hmem
  · rw [hleave]
    exact h.nodup.sublist hsublist
  · rw [hleave]
    exact fun x hx => h.name x (hsublist.subset hx)

end Mirrors

end MiniC
