import MiniC.Proofs.Code.Supply
import MiniC.Proofs.Execution.Machine

/-!
# The machine follows a result

`Follows` says that the machine, from some state, comes to what a result of running the tree says:
to a state with a property when the part ran through, to the same ending when the function returned
or got stuck, and to at least so many steps when the rounds ran out, each time with the same calls.
Its lemmas are one for a step of the machine and one for `Result.bind`, so that the proof about a
part of a function goes along the part itself. The code of a part stands somewhere inside the code
of the function (`Code.At`).
-/

namespace MiniC

universe u v

/-! ## 1. Places in the code -/

namespace Code

/-- The part stands in the code at that place. -/
def At (code : Code) (pc : Nat) (part : Code) : Prop :=
  ∃ front back, code = front ++ part ++ back ∧ front.length = pc

variable {code a b : Code} {pc : Nat} {i : Instruction}

theorem At.whole (code : Code) : code.At 0 code := ⟨[], [], by simp, rfl⟩

theorem At.left (h : code.At pc (a ++ b)) : code.At pc a := by
  obtain ⟨front, back, rfl, hpc⟩ := h
  exact ⟨front, b ++ back, by simp, hpc⟩

theorem At.right (h : code.At pc (a ++ b)) : code.At (pc + a.length) b := by
  obtain ⟨front, back, rfl, rfl⟩ := h
  exact ⟨front ++ a, back, by simp, by simp⟩

theorem At.head (h : code.At pc (i :: a)) : code[pc]? = some i := by
  obtain ⟨front, back, rfl, rfl⟩ := h
  simp

theorem At.tail (h : code.At pc (i :: a)) : code.At (pc + 1) a := At.right (a := [i]) h

/-- The mark of a label that is marked once is where jumps to the label go. -/
theorem At.target? {name : String} (h : code.At pc (.label name :: a))
    (hnodup : code.labels.Nodup) : code.target? name = some pc := by
  obtain ⟨front, back, rfl, rfl⟩ := h
  rw [Code.target?, List.append_assoc, List.findIdx?_append]
  have hfront : front.findIdx? (· = .label name) = none := by
    rw [List.findIdx?_eq_none_iff]
    intro i hi
    refine decide_eq_false fun heq => ?_
    rw [labels_append, labels_append, labels_cons, List.append_assoc, List.nodup_append] at hnodup
    refine hnodup.2.2 name ?_ name List.mem_cons_self rfl
    exact List.mem_filterMap.mpr ⟨i, hi, by rw [heq]; rfl⟩
  rw [hfront, Option.none_or, List.cons_append, List.findIdx?_cons, if_pos (decide_eq_true rfl)]
  simp

end Code

/-! ## 2. Running on -/

variable {Value : Type u} {α β : Type v} {I : Interpretation Value} {code : Code}

namespace State

theorem run_of_step {s s' : State Value} (h : s.step I code = .running s') (n : Nat) :
    s.run I code (n + 1) = s'.run I code n := by
  rw [run, h]

theorem run_add {s s' : State Value} {m : Nat} (h : s.run I code m = .running s') (n : Nat) :
    s.run I code (m + n) = s'.run I code n := by
  induction m generalizing s with
  | zero =>
    cases h
    rw [Nat.zero_add]
  | succ m ih =>
    rw [Nat.succ_add, run]
    rw [run] at h
    cases hstep : s.step I code with
    | running next =>
      simp only [hstep] at h ⊢
      exact ih h
    | finished ending history =>
      simp only [hstep] at h
      cases h
    | stuck history =>
      simp only [hstep] at h
      cases h

/-- A machine that runs for `n` steps also runs for fewer. -/
theorem run_of_le {s s' : State Value} {m n : Nat} (hle : m ≤ n)
    (h : s.run I code n = .running s') : ∃ mid, s.run I code m = .running mid := by
  induction m generalizing s n with
  | zero => exact ⟨s, rfl⟩
  | succ m ih =>
    match n with
    | 0 => omega
    | n + 1 =>
      rw [run] at h ⊢
      cases hstep : s.step I code with
      | running next =>
        simp only [hstep] at h ⊢
        exact ih (by omega) h
      | finished ending history =>
        simp only [hstep] at h
        cases h
      | stuck history =>
        simp only [hstep] at h
        cases h

end State

/-! ## 3. Following a result -/

/-- From `s` the machine comes to what the result says. After a result that ran through, the state
    has the property `post`; after one that ran out of rounds, at least `least` steps were made. -/
def Follows (I : Interpretation Value) (code : Code) (least : Nat) (s : State Value)
    (r : Result Value α) (post : α → State Value → Prop) : Prop :=
  match r with
  | .done value history =>
    ∃ n s', s.run I code n = .running s' ∧ s'.history = history ∧ post value s'
  | .returned value history => ∃ n, s.run I code n = .finished (.returned value) history
  | .stuck history => ∃ n, s.run I code n = .stuck history
  | .unset history => ∃ n s', s.run I code n = .running s' ∧ s'.history = history
  | .unbound _ => False
  | .unfinished history =>
    ∃ n s', least ≤ n ∧ s.run I code n = .running s' ∧ s'.history = history

namespace Follows

variable {least : Nat} {s s' : State Value} {r : Result Value α} {post : α → State Value → Prop}

theorem done {value : α} (h : post value s) :
    Follows I code least s (.done value s.history) post :=
  ⟨0, s, rfl, rfl, h⟩

theorem unset : Follows I code least s (.unset s.history : Result Value α) post :=
  ⟨0, s, rfl, rfl⟩

theorem stuck (h : s.step I code = .stuck s.history) :
    Follows I code least s (.stuck s.history : Result Value α) post :=
  ⟨1, by rw [State.run, h]⟩

theorem returned {value : Option Value}
    (h : s.step I code = .finished (.returned value) s.history) :
    Follows I code least s (.returned value s.history : Result Value α) post :=
  ⟨1, by rw [State.run, h]⟩

/-- Some steps of the machine come before what it does from there. -/
theorem after {m : Nat} (hrun : s.run I code m = .running s')
    (h : Follows I code least s' r post) : Follows I code (m + least) s r post := by
  cases r with
  | done value history =>
    obtain ⟨n, t, ht, hhistory, hpost⟩ := h
    exact ⟨m + n, t, by rw [State.run_add hrun]; exact ht, hhistory, hpost⟩
  | returned value history =>
    obtain ⟨n, ht⟩ := h
    exact ⟨m + n, by rw [State.run_add hrun]; exact ht⟩
  | stuck history =>
    obtain ⟨n, ht⟩ := h
    exact ⟨m + n, by rw [State.run_add hrun]; exact ht⟩
  | unset history =>
    obtain ⟨n, t, ht, hhistory⟩ := h
    exact ⟨m + n, t, by rw [State.run_add hrun]; exact ht, hhistory⟩
  | unbound history => exact h
  | unfinished history =>
    obtain ⟨n, t, hle, ht, hhistory⟩ := h
    exact ⟨m + n, t, by omega, by rw [State.run_add hrun]; exact ht, hhistory⟩

/-- One step counts for one more. -/
theorem step (hstep : s.step I code = .running s') (h : Follows I code least s' r post) :
    Follows I code (least + 1) s r post := by
  have hrun : s.run I code 1 = .running s' := State.run_of_step hstep 0
  rw [Nat.add_comm]
  exact h.after hrun

theorem of_le {least' : Nat} (hle : least' ≤ least) (h : Follows I code least s r post) :
    Follows I code least' s r post := by
  cases r with
  | unfinished history =>
    obtain ⟨n, t, hn, ht, hhistory⟩ := h
    exact ⟨n, t, by omega, ht, hhistory⟩
  | done | returned | stuck | unset | unbound => exact h

/-- A step whose count does not matter. -/
theorem step' (hstep : s.step I code = .running s') (h : Follows I code least s' r post) :
    Follows I code least s r post :=
  (h.step hstep).of_le (Nat.le_succ _)

/-- **The machine follows a part and then, from where it is, the next part.** -/
theorem bind {next : α → History Value → Result Value β} {post' : β → State Value → Prop}
    (h : Follows I code least s r post)
    (hnext : ∀ value s', post value s' → Follows I code least s' (next value s'.history) post') :
    Follows I code least s (r.bind next) post' := by
  cases r with
  | done value history =>
    obtain ⟨n, t, ht, rfl, hpost⟩ := h
    exact (after ht (hnext value t hpost)).of_le (Nat.le_add_left _ _)
  | returned | stuck | unset | unbound | unfinished => exact h

/-- After a part that ran through, the machine goes on by itself. -/
theorem onward {post' : α → State Value → Prop} (h : Follows I code least s r post)
    (hon : ∀ value s', post value s' →
      Follows I code least s' (.done value s'.history : Result Value α) post') :
    Follows I code least s r post' := by
  cases r with
  | done value history =>
    obtain ⟨n, t, ht, rfl, hpost⟩ := h
    exact (after ht (hon value t hpost)).of_le (Nat.le_add_left _ _)
  | returned | stuck | unset | unbound | unfinished => exact h

/-- **A loop is followed when each of its rounds is.** A round begins with a step that makes no
    call, so as many rounds as there are make at least as many steps. -/
theorem iterate {round : α → History Value → Result Value (Option α)} {rounds : Nat}
    (inv post : α → State Value → Prop)
    (hround : ∀ state s, inv state s → ∃ s', s.step I code = .running s' ∧
      s'.history = s.history ∧
      Follows I code rounds s' (round state s'.history) fun next t =>
        match next with
        | none => post state t
        | some state => inv state t) :
    ∀ k ≤ rounds, ∀ state s, inv state s →
      Follows I code k s (Result.iterate round k state s.history) post := by
  intro k
  induction k with
  | zero => exact fun _ state s _ => ⟨0, s, Nat.le_refl 0, rfl, rfl⟩
  | succ k ih =>
    intro hle state s hinv
    obtain ⟨s', hstep, hhistory, hfollows⟩ := hround state s hinv
    rw [Result.iterate, ← hhistory]
    refine .step hstep ((hfollows.of_le (by omega)).bind fun next t ht => ?_)
    cases next with
    | none => exact .done ht
    | some state => exact ih (by omega) state t ht

end Follows

end MiniC
