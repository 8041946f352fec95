import MiniC.Grammar.Fault

/-!
# Reading a phrase from the front of a token list

A reading of `ts` is a value or a syntax error, with the tokens that are left. What is left is
always a suffix of `ts`, and the type says so: `andThen` hands the continuation the fact that its
tokens are no more than those before, which is what every recursion of the grammar rests on.

A tolerant reading may also have met faults inside a block and gone on after them; it lists them
in the order in which they were met.
-/

namespace MiniC

variable {α β : Type} {ts us : List Token}

/-! ## 1. Readings -/

/-- The outcome of reading an `α` from the front of `ts`. -/
structure Reading (ts : List Token) (α : Type) where
  result : Except SyntaxError α
  rest : List Token
  suffix : rest <:+ ts

namespace Reading

/-- Success without a token read. -/
def done (value : α) : Reading ts α := ⟨.ok value, ts, List.suffix_refl ts⟩

/-- Failure without a token read. -/
def fail (expected : Expected) : Reading ts α :=
  ⟨.error ⟨expected, ts.head?⟩, ts, List.suffix_refl ts⟩

/-- A reading of a suffix of `ts`, as a reading of `ts`. -/
def widen (h : us <:+ ts) (r : Reading us α) : Reading ts α :=
  ⟨r.result, r.rest, r.suffix.trans h⟩

/-- A reading of the tokens after `t`, as a reading that starts with `t`. -/
def after (t : Token) (r : Reading ts α) : Reading (t :: ts) α :=
  r.widen (List.suffix_cons t ts)

/-- The reading with its value changed. -/
def map (f : α → β) (r : Reading ts α) : Reading ts β :=
  ⟨r.result.map f, r.rest, r.suffix⟩

/-- The reading followed, if it succeeds, by a reading of the tokens it left. -/
def andThen (r : Reading ts α)
    (next : α → (rest : List Token) → rest.length ≤ ts.length → Reading rest β) :
    Reading ts β :=
  match r.result with
  | .ok value => (next value r.rest r.suffix.length_le).widen r.suffix
  | .error e => ⟨.error e, r.rest, r.suffix⟩

@[simp] theorem result_done (value : α) : (done value : Reading ts α).result = .ok value := rfl

@[simp] theorem rest_done (value : α) : (done value : Reading ts α).rest = ts := rfl

@[simp] theorem result_fail (expected : Expected) :
    (fail expected : Reading ts α).result = .error ⟨expected, ts.head?⟩ := rfl

@[simp] theorem rest_fail (expected : Expected) : (fail expected : Reading ts α).rest = ts := rfl

@[simp] theorem result_widen (h : us <:+ ts) (r : Reading us α) :
    (r.widen h).result = r.result := rfl

@[simp] theorem rest_widen (h : us <:+ ts) (r : Reading us α) : (r.widen h).rest = r.rest := rfl

@[simp] theorem result_after (t : Token) (r : Reading ts α) : (r.after t).result = r.result := rfl

@[simp] theorem rest_after (t : Token) (r : Reading ts α) : (r.after t).rest = r.rest := rfl

@[simp] theorem result_map (f : α → β) (r : Reading ts α) :
    (r.map f).result = r.result.map f := rfl

@[simp] theorem rest_map (f : α → β) (r : Reading ts α) : (r.map f).rest = r.rest := rfl

/-- After a success the continuation decides. -/
theorem andThen_of_ok {r : Reading ts α} {value : α} (h : r.result = .ok value)
    (next : α → (rest : List Token) → rest.length ≤ ts.length → Reading rest β) :
    r.andThen next = (next value r.rest r.suffix.length_le).widen r.suffix := by
  simp only [andThen, h]

/-- After a failure the continuation is not run. -/
theorem andThen_of_error {r : Reading ts α} {e : SyntaxError} (h : r.result = .error e)
    (next : α → (rest : List Token) → rest.length ≤ ts.length → Reading rest β) :
    r.andThen next = ⟨.error e, r.rest, r.suffix⟩ := by
  simp only [andThen, h]

end Reading

/-! ## 2. Single tokens -/

/-- The token of this kind and text that must come next. On a mismatch the offending token is
    skipped. -/
def expect (kind : Token.Kind) (text : String) : (ts : List Token) → Reading ts Token
  | [] => .fail (.text text)
  | t :: ts =>
    if t.is kind text then (Reading.done t).after t
    else ⟨.error ⟨.text text, some t⟩, ts, List.suffix_cons t ts⟩

/-- The token of this kind that must come next. On a mismatch the offending token is skipped. -/
def expectKind (kind : Token.Kind) : (ts : List Token) → Reading ts Token
  | [] => .fail (.kind kind)
  | t :: ts =>
    if t.kind = kind then (Reading.done t).after t
    else ⟨.error ⟨.kind kind, some t⟩, ts, List.suffix_cons t ts⟩

theorem expect_of_is {kind : Token.Kind} {text : String} {t : Token}
    (h : t.is kind text = true) : expect kind text (t :: ts) = (Reading.done t).after t := by
  rw [expect, if_pos h]

theorem expect_of_not {kind : Token.Kind} {text : String} {t : Token}
    (h : t.is kind text = false) :
    expect kind text (t :: ts) =
      ⟨.error ⟨.text text, some t⟩, ts, List.suffix_cons t ts⟩ := by
  rw [expect, if_neg (by simp [h])]

theorem expectKind_of_eq {t : Token} :
    expectKind t.kind (t :: ts) = (Reading.done t).after t := by
  rw [expectKind, if_pos rfl]

theorem expectKind_of_ne {kind : Token.Kind} {t : Token} (h : t.kind ≠ kind) :
    expectKind kind (t :: ts) = ⟨.error ⟨.kind kind, some t⟩, ts, List.suffix_cons t ts⟩ := by
  rw [expectKind, if_neg h]

/-- The separator that must come next. -/
abbrev expectSeparator (text : String) (ts : List Token) : Reading ts Token :=
  expect .separator text ts

/-- Whether the next token has this kind and text. -/
def startsWith (kind : Token.Kind) (text : String) : List Token → Bool
  | [] => false
  | t :: _ => t.is kind text

/-! ## 3. Tolerant readings -/

/-- A reading that may have gone on after faults, which it lists in the order met. -/
structure Tolerant (ts : List Token) (α : Type) extends Reading ts α where
  faults : List Fault

/-- A reading that met no fault on its way. -/
def Reading.tolerant (r : Reading ts α) : Tolerant ts α := { r with faults := [] }

namespace Tolerant

/-- A tolerant reading of a suffix of `ts`, as one of `ts`. -/
def widen (h : us <:+ ts) (r : Tolerant us α) : Tolerant ts α :=
  { r.toReading.widen h with faults := r.faults }

/-- A reading of the tokens after `t`, as a reading that starts with `t`. -/
def after (t : Token) (r : Tolerant ts α) : Tolerant (t :: ts) α :=
  r.widen (List.suffix_cons t ts)

/-- The reading with its value changed. -/
def map (f : α → β) (r : Tolerant ts α) : Tolerant ts β :=
  { r.toReading.map f with faults := r.faults }

/-- The reading with a fault that was met before it. -/
def noting (fault : Fault) (r : Tolerant ts α) : Tolerant ts α :=
  { r with faults := fault :: r.faults }

/-- The reading followed, whether it succeeds or not, by a reading of the tokens it left. -/
def follow (r : Tolerant ts α)
    (next : Except SyntaxError α → (rest : List Token) → rest.length ≤ ts.length →
      Tolerant rest β) :
    Tolerant ts β :=
  let r' := (next r.result r.rest r.suffix.length_le).widen r.suffix
  { r' with faults := r.faults ++ r'.faults }

/-- The reading followed, if it succeeds, by a reading of the tokens it left. -/
def andThen (r : Tolerant ts α)
    (next : α → (rest : List Token) → rest.length ≤ ts.length → Tolerant rest β) :
    Tolerant ts β :=
  r.follow fun
    | .ok value, rest, h => next value rest h
    | .error e, rest, _ => ⟨⟨.error e, rest, List.suffix_refl rest⟩, []⟩

@[simp] theorem toReading_tolerant (r : Reading ts α) : r.tolerant.toReading = r := rfl

@[simp] theorem faults_tolerant (r : Reading ts α) : r.tolerant.faults = [] := rfl

@[simp] theorem toReading_widen (h : us <:+ ts) (r : Tolerant us α) :
    (r.widen h).toReading = r.toReading.widen h := rfl

@[simp] theorem faults_widen (h : us <:+ ts) (r : Tolerant us α) :
    (r.widen h).faults = r.faults := rfl

@[simp] theorem toReading_after (t : Token) (r : Tolerant ts α) :
    (r.after t).toReading = r.toReading.after t := rfl

@[simp] theorem faults_after (t : Token) (r : Tolerant ts α) :
    (r.after t).faults = r.faults := rfl

@[simp] theorem toReading_map (f : α → β) (r : Tolerant ts α) :
    (r.map f).toReading = r.toReading.map f := rfl

@[simp] theorem faults_map (f : α → β) (r : Tolerant ts α) : (r.map f).faults = r.faults := rfl

@[simp] theorem toReading_noting (fault : Fault) (r : Tolerant ts α) :
    (r.noting fault).toReading = r.toReading := rfl

@[simp] theorem faults_noting (fault : Fault) (r : Tolerant ts α) :
    (r.noting fault).faults = fault :: r.faults := rfl

/-- After a success the continuation decides, and its faults come later. -/
theorem andThen_of_ok {r : Tolerant ts α} {value : α} (h : r.result = .ok value)
    (next : α → (rest : List Token) → rest.length ≤ ts.length → Tolerant rest β) :
    (r.andThen next).toReading =
        (next value r.rest r.suffix.length_le).toReading.widen r.suffix ∧
      (r.andThen next).faults =
        r.faults ++ (next value r.rest r.suffix.length_le).faults := by
  simp only [andThen, follow, h]
  exact ⟨rfl, rfl⟩

/-- After a failure the continuation is not run. -/
theorem andThen_of_error {r : Tolerant ts α} {e : SyntaxError} (h : r.result = .error e)
    (next : α → (rest : List Token) → rest.length ≤ ts.length → Tolerant rest β) :
    (r.andThen next).toReading = ⟨.error e, r.rest, r.suffix⟩ ∧
      (r.andThen next).faults = r.faults := by
  simp only [andThen, follow, h]
  exact ⟨rfl, List.append_nil _⟩

end Tolerant

end MiniC
