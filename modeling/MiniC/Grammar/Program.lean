import MiniC.Grammar.Stmt

/-!
# Reading programs

A program is read function by function. Faults inside a function's blocks do not stop the reading;
a function that cannot be read does, and the functions before it are kept. Reading can then be
taken up again with the tokens left over.
-/

namespace MiniC

/-- The return type a token spells. -/
def TypeName.ofToken (t : Token) : Except SyntaxError TypeName :=
  if t.kind = .keyword then
    if t.text = "int" then .ok .int
    else if t.text = "void" then .ok .void
    else .error ⟨.returnType, some t⟩
  else .error ⟨.kind .keyword, some t⟩

/-- One or more parameters and the closing parenthesis. -/
def Param.readSome (ts : List Token) : Reading ts (List Param) :=
  (expect .keyword "int" ts).andThen fun _ rest _ =>
    (expectKind .identifier rest).andThen fun name rest _ =>
      let param : Param := ⟨.int, name.ident⟩
      match rest with
      | [] => (expectSeparator ")" []).map fun _ => [param]
      | t :: rest =>
        if t.is .separator "," then .after t <| (Param.readSome rest).map (param :: ·)
        else (expectSeparator ")" (t :: rest)).map fun _ => [param]
termination_by ts.length
decreasing_by simp only [List.length_cons] at *; omega

/-- The parameters of a function, from the opening parenthesis to the closing one. -/
def Param.readList (ts : List Token) : Reading ts (List Param) :=
  (expectSeparator "(" ts).andThen fun _ rest _ =>
    if startsWith .separator ")" rest then (expectSeparator ")" rest).map fun _ => []
    else Param.readSome rest

/-- A function, after its return type. -/
def Function.read (returnType : TypeName) (ts : List Token) : Tolerant ts Function :=
  (expectKind .identifier ts).tolerant.andThen fun name rest _ =>
    (Param.readList rest).tolerant.andThen fun params rest _ =>
      (Stmt.readBlock rest).map fun body => ⟨returnType, name.ident, params, body⟩

/-- What reading a program came to: the functions read, the faults in the order met, and the
    tokens left when a function could not be read. -/
structure Parse where
  program : Program
  faults : List Fault
  rest : List Token
  deriving Repr

namespace Parse

/-- The syntax errors, in the order met. -/
def errors (p : Parse) : List SyntaxError := p.faults.map Fault.error

end Parse

/-- **The program that `ts` spells, function by function.** -/
def Program.read (ts : List Token) : Parse :=
  match ts with
  | [] => ⟨[], [], []⟩
  | t :: ts =>
    match TypeName.ofToken t with
    | .error e => ⟨[], [⟨e, .aborted⟩], ts⟩
    | .ok type =>
      let function := Function.read type ts
      match function.result with
      | .error e => ⟨[], function.faults ++ [⟨e, .aborted⟩], function.rest⟩
      | .ok value =>
        let later := Program.read function.rest
        ⟨value :: later.program, function.faults ++ later.faults, later.rest⟩
termination_by ts.length
decreasing_by
  have := (Function.read type ts).suffix.length_le
  rw [List.length_cons]
  omega

/-- The first `n` readings of `ts`, each starting where the one before it stopped. -/
def Program.readRepeatedly : Nat → List Token → List Parse
  | 0, _ => []
  | n + 1, ts =>
    let first := Program.read ts
    first :: Program.readRepeatedly n first.rest

end MiniC
