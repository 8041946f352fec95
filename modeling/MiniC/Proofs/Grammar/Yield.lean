import MiniC.Grammar.Program

/-!
# What a reading yields

A reading yields a value and the tokens that are left when it succeeds. For each way of building a
reading there is one equivalence below, so that a proof about a reader takes the reader apart, or
puts it together, without looking inside a reading. A tolerant reading is clean when it succeeds
and met no fault on its way.
-/

namespace MiniC

variable {α β : Type} {ts us rest : List Token}

/-! ## 1. Readings -/

namespace Reading

/-- The reading succeeds with this value and leaves these tokens. -/
def Yields (r : Reading ts α) (value : α) (rest : List Token) : Prop :=
  r.result = .ok value ∧ r.rest = rest

theorem yields_done_iff {value v : α} :
    (done value : Reading ts α).Yields v rest ↔ value = v ∧ ts = rest := by
  simp [Yields]

theorem not_yields_fail {expected : Expected} {v : α} :
    ¬ (fail expected : Reading ts α).Yields v rest := by
  simp [Yields]

theorem yields_after_iff {t : Token} {r : Reading ts α} {v : α} :
    (r.after t).Yields v rest ↔ r.Yields v rest := Iff.rfl

theorem yields_map_iff {f : α → β} {r : Reading ts α} {w : β} :
    (r.map f).Yields w rest ↔ ∃ v, r.Yields v rest ∧ f v = w := by
  unfold Yields
  rw [result_map, rest_map]
  cases r.result with
  | error e => simp [Except.map]
  | ok value =>
    constructor
    · intro h
      obtain ⟨hw, hrest⟩ := h
      exact ⟨value, ⟨rfl, hrest⟩, Except.ok.inj hw⟩
    · intro h
      obtain ⟨v, ⟨hv, hrest⟩, rfl⟩ := h
      cases hv
      exact ⟨rfl, hrest⟩

/-- A sequence yields what its second part yields on the tokens left by the first. -/
theorem yields_andThen_iff {r : Reading ts α} {w : β}
    {next : α → (rest : List Token) → rest.length ≤ ts.length → Reading rest β} :
    (r.andThen next).Yields w rest ↔
      ∃ v mid, ∃ h : mid.length ≤ ts.length, r.Yields v mid ∧ (next v mid h).Yields w rest := by
  constructor
  · intro hy
    cases h : r.result with
    | error e =>
      rw [andThen_of_error h] at hy
      cases hy.1
    | ok value =>
      rw [andThen_of_ok h] at hy
      exact ⟨value, r.rest, r.suffix.length_le, ⟨h, rfl⟩, hy⟩
  · intro hyields
    obtain ⟨v, mid, hle, ⟨hv, rfl⟩, hy⟩ := hyields
    rw [andThen_of_ok hv]
    exact hy

/-- A reading and a rearranged value of it yield together. -/
theorem Yields.map {r : Reading ts α} {v : α} (h : r.Yields v rest) (f : α → β) :
    (r.map f).Yields (f v) rest :=
  yields_map_iff.mpr ⟨v, h, rfl⟩

/-- The second part of a sequence may be read once the first has yielded. -/
theorem Yields.andThen {r : Reading ts α} {v : α} {w : β} {mid : List Token} (h : r.Yields v mid)
    {next : α → (rest : List Token) → rest.length ≤ ts.length → Reading rest β}
    (h' : ∀ hle, (next v mid hle).Yields w rest) : (r.andThen next).Yields w rest := by
  have hle : mid.length ≤ ts.length := h.2 ▸ r.suffix.length_le
  exact yields_andThen_iff.mpr ⟨v, mid, hle, h, h' hle⟩

end Reading

/-! ## 2. Single tokens -/

theorem yields_expect_iff {kind : Token.Kind} {text : String} {t : Token} :
    (expect kind text ts).Yields t rest ↔ ts = t :: rest ∧ t.is kind text = true := by
  cases ts with
  | nil => simp [expect, Reading.Yields]
  | cons u ts =>
    cases h : u.is kind text with
    | true =>
      rw [expect_of_is h, Reading.yields_after_iff, Reading.yields_done_iff]
      constructor
      · intro hyields
        obtain ⟨rfl, rfl⟩ := hyields
        exact ⟨rfl, h⟩
      · intro hyields
        obtain ⟨heq, -⟩ := hyields
        cases heq
        exact ⟨rfl, rfl⟩
    | false =>
      rw [expect_of_not h]
      constructor
      · intro hyields
        obtain ⟨hr, -⟩ := hyields
        cases hr
      · intro hyields
        obtain ⟨heq, ht⟩ := hyields
        cases heq
        rw [h] at ht
        cases ht

theorem yields_expectKind_iff {kind : Token.Kind} {t : Token} :
    (expectKind kind ts).Yields t rest ↔ ts = t :: rest ∧ t.kind = kind := by
  cases ts with
  | nil => simp [expectKind, Reading.Yields]
  | cons u ts =>
    by_cases h : u.kind = kind
    · subst h
      rw [expectKind_of_eq, Reading.yields_after_iff, Reading.yields_done_iff]
      constructor
      · intro hyields
        obtain ⟨rfl, rfl⟩ := hyields
        exact ⟨rfl, rfl⟩
      · intro hyields
        obtain ⟨heq, -⟩ := hyields
        cases heq
        exact ⟨rfl, rfl⟩
    · rw [expectKind_of_ne h]
      constructor
      · intro hyields
        obtain ⟨hr, -⟩ := hyields
        cases hr
      · intro hyields
        obtain ⟨heq, ht⟩ := hyields
        cases heq
        exact absurd ht h

theorem yields_expect {kind : Token.Kind} {text : String} {t : Token} (h : t.is kind text = true) :
    (expect kind text (t :: ts)).Yields t ts :=
  yields_expect_iff.mpr ⟨rfl, h⟩

theorem yields_expectKind {kind : Token.Kind} {t : Token} (h : t.kind = kind) :
    (expectKind kind (t :: ts)).Yields t ts :=
  yields_expectKind_iff.mpr ⟨rfl, h⟩

/-! ## 3. Tolerant readings -/

namespace Tolerant

/-- The reading succeeds with this value, leaves these tokens, and met no fault. -/
def Clean (r : Tolerant ts α) (value : α) (rest : List Token) : Prop :=
  r.toReading.Yields value rest ∧ r.faults = []

theorem clean_tolerant_iff {r : Reading ts α} {v : α} :
    r.tolerant.Clean v rest ↔ r.Yields v rest :=
  and_iff_left rfl

theorem clean_after_iff {t : Token} {r : Tolerant ts α} {v : α} :
    (r.after t).Clean v rest ↔ r.Clean v rest := Iff.rfl

theorem not_clean_noting {fault : Fault} {r : Tolerant ts α} {v : α} :
    ¬ (r.noting fault).Clean v rest := by
  simp [Clean]

theorem clean_map_iff {f : α → β} {r : Tolerant ts α} {w : β} :
    (r.map f).Clean w rest ↔ ∃ v, r.Clean v rest ∧ f v = w := by
  unfold Clean
  rw [toReading_map, faults_map, Reading.yields_map_iff]
  constructor
  · intro h
    obtain ⟨⟨v, hv, rfl⟩, hf⟩ := h
    exact ⟨v, ⟨hv, hf⟩, rfl⟩
  · intro h
    obtain ⟨v, ⟨hv, hf⟩, rfl⟩ := h
    exact ⟨⟨v, hv, rfl⟩, hf⟩

/-- Two parts follow each other cleanly when both are clean, whatever the second does after a
    failure of the first. -/
theorem clean_follow_iff {r : Tolerant ts α} {w : β}
    {next : Except SyntaxError α → (rest : List Token) → rest.length ≤ ts.length →
      Tolerant rest β} :
    (r.follow next).Clean w rest ↔
      r.faults = [] ∧ (next r.result r.rest r.suffix.length_le).Clean w rest := by
  have hfaults : (r.follow next).faults =
      r.faults ++ (next r.result r.rest r.suffix.length_le).faults := rfl
  unfold Clean
  rw [hfaults, List.append_eq_nil_iff]
  constructor
  · intro h
    obtain ⟨hy, hr, hn⟩ := h
    exact ⟨hr, hy, hn⟩
  · intro h
    obtain ⟨hr, hy, hn⟩ := h
    exact ⟨hy, hr, hn⟩

theorem clean_andThen_iff {r : Tolerant ts α} {w : β}
    {next : α → (rest : List Token) → rest.length ≤ ts.length → Tolerant rest β} :
    (r.andThen next).Clean w rest ↔
      ∃ v mid, ∃ h : mid.length ≤ ts.length, r.Clean v mid ∧ (next v mid h).Clean w rest := by
  constructor
  · intro hyields
    obtain ⟨hy, hf⟩ := hyields
    cases h : r.result with
    | error e =>
      rw [(andThen_of_error h next).1] at hy
      cases hy.1
    | ok value =>
      rw [(andThen_of_ok h next).1] at hy
      rw [(andThen_of_ok h next).2, List.append_eq_nil_iff] at hf
      exact ⟨value, r.rest, r.suffix.length_le, ⟨⟨h, rfl⟩, hf.1⟩, hy, hf.2⟩
  · intro hyields
    obtain ⟨v, mid, hle, ⟨⟨hv, rfl⟩, hf⟩, hy, hf'⟩ := hyields
    refine ⟨?_, ?_⟩
    · rw [(andThen_of_ok hv next).1]
      exact hy
    · rw [(andThen_of_ok hv next).2, hf, hf']
      rfl

theorem yields_andThen_iff {r : Tolerant ts α} {w : β}
    {next : α → (rest : List Token) → rest.length ≤ ts.length → Tolerant rest β} :
    (r.andThen next).toReading.Yields w rest ↔
      ∃ v mid, ∃ h : mid.length ≤ ts.length,
        r.toReading.Yields v mid ∧ (next v mid h).toReading.Yields w rest := by
  constructor
  · intro hy
    cases h : r.result with
    | error e =>
      rw [(andThen_of_error h next).1] at hy
      cases hy.1
    | ok value =>
      rw [(andThen_of_ok h next).1] at hy
      exact ⟨value, r.rest, r.suffix.length_le, ⟨h, rfl⟩, hy⟩
  · intro hyields
    obtain ⟨v, mid, hle, ⟨hv, rfl⟩, hy⟩ := hyields
    rw [(andThen_of_ok hv next).1]
    exact hy

theorem yields_after_iff {t : Token} {r : Tolerant ts α} {v : α} :
    (r.after t).toReading.Yields v rest ↔ r.toReading.Yields v rest := Iff.rfl

/-- A fault met on the way changes nothing about what is read. -/
theorem yields_noting_iff {fault : Fault} {r : Tolerant us α} {h : us <:+ ts} {v : α} :
    ((r.widen h).noting fault).toReading.Yields v rest ↔ r.toReading.Yields v rest := Iff.rfl

theorem yields_map_iff {f : α → β} {r : Tolerant ts α} {w : β} :
    (r.map f).toReading.Yields w rest ↔ ∃ v, r.toReading.Yields v rest ∧ f v = w :=
  Reading.yields_map_iff

theorem yields_follow_iff {r : Tolerant ts α} {w : β}
    {next : Except SyntaxError α → (rest : List Token) → rest.length ≤ ts.length →
      Tolerant rest β} :
    (r.follow next).toReading.Yields w rest ↔
      (next r.result r.rest r.suffix.length_le).toReading.Yields w rest := Iff.rfl

/-- The second part of a sequence may be read once the first was clean. -/
theorem Clean.andThen {r : Tolerant ts α} {v : α} {w : β} {mid : List Token} (h : r.Clean v mid)
    {next : α → (rest : List Token) → rest.length ≤ ts.length → Tolerant rest β}
    (h' : ∀ hle, (next v mid hle).Clean w rest) : (r.andThen next).Clean w rest := by
  have hle : mid.length ≤ ts.length := h.1.2 ▸ r.suffix.length_le
  exact clean_andThen_iff.mpr ⟨v, mid, hle, h, h' hle⟩

end Tolerant

theorem Reading.Yields.clean {r : Reading ts α} {v : α} (h : r.Yields v rest) :
    r.tolerant.Clean v rest :=
  Tolerant.clean_tolerant_iff.mpr h

theorem Tolerant.Clean.map {r : Tolerant ts α} {v : α} (h : r.Clean v rest) (f : α → β) :
    (r.map f).Clean (f v) rest :=
  Tolerant.clean_map_iff.mpr ⟨v, h, rfl⟩

end MiniC
