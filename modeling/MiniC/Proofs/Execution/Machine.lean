import MiniC.Code.Instruction
import MiniC.Proofs.Execution.Direct

/-!
# Running the code

A machine for the code of one function. It keeps the number of the next instruction, a frame that
gives words their values, the values handed over for calls, and the history of calls. A word that
starts with a quote is a string, one that starts with a digit a number, and any other is looked up
in the frame. A jump goes to the first place that marks its label. Control that runs off the end of
the code ends the function.
-/

namespace MiniC

universe u

variable {Value : Type u}

/-! ## 1. Words and frames -/

/-- The values of words. -/
abbrev Frame (Value : Type u) := String → Option Value

/-- The frame with a new value for one word. -/
def Frame.set (frame : Frame Value) (word : String) (value : Value) : Frame Value :=
  fun x => if x = word then some value else frame x

@[simp] theorem Frame.set_self (frame : Frame Value) (word : String) (value : Value) :
    frame.set word value word = some value := if_pos rfl

theorem Frame.set_of_ne (frame : Frame Value) {x word : String} (h : x ≠ word) (value : Value) :
    frame.set word value x = frame x := if_neg h

/-- The value of an operand. -/
def Interpretation.operand (I : Interpretation Value) (frame : Frame Value) (word : String) :
    Option Value :=
  match word.toList with
  | [] => frame word
  | c :: cs =>
    if c = '"' then some (I.string (String.ofList cs.dropLast))
    else if c.isDigit then some (I.number word)
    else frame word

/-- The place of the first mark of the label. -/
def Code.target? (code : Code) (label : String) : Option Nat := code.findIdx? (· = .label label)

/-! ## 2. Steps -/

/-- How a function ends. -/
inductive Ending (Value : Type u) where
  | returned (value : Option Value)
  /-- Control ran off the end of the code. -/
  | ended
  deriving Repr

/-- The state of the machine. -/
structure State (Value : Type u) where
  /-- The place of the next instruction. -/
  pc : Nat
  frame : Frame Value
  /-- The values handed over and not yet taken by a call, the latest last. -/
  queue : List Value
  history : History Value

/-- Where the machine has got to. -/
inductive Progress (Value : Type u) where
  | running (state : State Value)
  | finished (ending : Ending Value) (history : History Value)
  | stuck (history : History Value)

namespace State

/-- The state at the next instruction. -/
def next (s : State Value) : State Value := { s with pc := s.pc + 1 }

/-- The state with the value, if there is one, in the word, at the next instruction. -/
def store (s : State Value) (word : String) : Option Value → Progress Value
  | some value => .running { s with pc := s.pc + 1, frame := s.frame.set word value }
  | none => .stuck s.history

/-- The state at the mark of the label. -/
def jump (s : State Value) (code : Code) (label : String) : Progress Value :=
  match code.target? label with
  | some pc => .running { s with pc }
  | none => .stuck s.history

end State

/-- One step of the machine. -/
def State.step (I : Interpretation Value) (code : Code) (s : State Value) : Progress Value :=
  match code[s.pc]? with
  | none => .finished .ended s.history
  | some (.binary dest left op right) =>
    s.store dest <| (I.operand s.frame left).bind fun a =>
      (I.operand s.frame right).bind fun b => I.binary op a b
  | some (.unary dest op operand) =>
    s.store dest <| (I.operand s.frame operand).bind fun a => I.unary op a
  | some (.copy dest source) => s.store dest (I.operand s.frame source)
  | some (.param word) =>
    match I.operand s.frame word with
    | some value => .running { s with pc := s.pc + 1, queue := s.queue ++ [value] }
    | none => .stuck s.history
  | some (.call dest callee argc) =>
    -- The last `argc` values handed over are the arguments.
    if argc ≤ s.queue.length then
      let args := s.queue.drop (s.queue.length - argc)
      let answer := I.answer s.history callee args
      .running {
        pc := s.pc + 1
        frame := s.frame.set dest answer
        queue := s.queue.take (s.queue.length - argc)
        history := s.history ++ [⟨callee, args, answer⟩] }
    else .stuck s.history
  | some (.label _) => .running s.next
  | some (.goto target) => s.jump code target
  | some (.ifFalse cond target) =>
    match I.operand s.frame cond with
    | some value => if I.isFalse value then s.jump code target else .running s.next
    | none => .stuck s.history
  | some (.ret none) => .finished (.returned none) s.history
  | some (.ret (some word)) =>
    match I.operand s.frame word with
    | some value => .finished (.returned (some value)) s.history
    | none => .stuck s.history
  | some (.funcBegin _) | some (.funcEnd _) => .stuck s.history

/-- **Running the code of a function for `n` steps**, or until it ends. -/
def State.run (I : Interpretation Value) (code : Code) : Nat → State Value → Progress Value
  | 0, s => .running s
  | n + 1, s =>
    match s.step I code with
    | .running s => s.run I code n
    | .finished ending history => .finished ending history
    | .stuck history => .stuck history

/-- The machine at the start of a function. -/
def State.start (frame : Frame Value) (history : History Value) : State Value :=
  ⟨0, frame, [], history⟩

end MiniC
