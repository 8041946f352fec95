import MiniC.Grammar.Clause
import MiniC.Grammar.Recovery

/-!
# Reading statements and blocks

The first token of a statement, with the one after it, says which statement it opens. A statement
that cannot be read is a fault of its block: the reader notes it, recovers, and goes on with the
next statement. A block itself fails only when its opening brace is missing or the input ends
before its closing brace.
-/

namespace MiniC

/-- What the first token of a statement announces. -/
inductive Opening where
  | declaration
  | branch
  | loop
  | ret (line : Nat)
  | call (callee : Ident)
  | assignment (target : Ident)
  deriving DecidableEq, Repr

/-- What `t` announces when `ts` comes after it; none if it opens no statement. -/
def Opening.of? (t : Token) (ts : List Token) : Option Opening :=
  if t.is .keyword "int" then some .declaration
  else if t.is .keyword "if" then some .branch
  else if t.is .keyword "for" then some .loop
  else if t.is .keyword "return" then some (.ret t.line)
  else if t.is .keyword "printf" then some (.call t.ident)
  else if t.kind = .identifier then
    if startsWith .separator "(" ts then some (.call t.ident)
    else if startsWith .operator "=" ts then some (.assignment t.ident)
    else none
  else none

namespace Stmt

mutual

/-- A block, from its opening brace to its closing one. -/
def readBlock (ts : List Token) : Tolerant ts Block :=
  (expectSeparator Token.openBrace ts).tolerant.andThen fun _ rest _ => readAll rest
termination_by (ts.length, 1)
decreasing_by all_goals omega

/-- Statements up to and including the closing brace of their block. -/
def readAll (ts : List Token) : Tolerant ts Block :=
  match ts with
  | [] => Reading.tolerant (.fail (.text Token.closeBrace))
  | t :: ts =>
    if ht : t.is .separator Token.closeBrace then Reading.tolerant (.after t (.done []))
    else
      match Opening.of? t ts with
      | none =>
        have := length_recover_cons_le (Bool.eq_false_iff.mpr ht) ts
        let fault := ⟨⟨.statement, some t⟩, .resumed (recoveryLength (t :: ts))⟩
        (readAll (recover (t :: ts))).widen (recover_suffix (t :: ts)) |>.noting fault
      | some opening =>
        .after t <| (readOpened opening ts).follow fun
          | .ok stmt, rest, _ => (readAll rest).map (stmt :: ·)
          | .error e, rest, _ =>
            have := (recover_suffix rest).length_le
            let fault := ⟨e, .resumed (recoveryLength rest)⟩
            (readAll (recover rest)).widen (recover_suffix rest) |>.noting fault
termination_by (ts.length, 0)
decreasing_by all_goals rw [List.length_cons]; omega

/-- The statement that was announced, after its first token. -/
def readOpened (opening : Opening) (ts : List Token) : Tolerant ts Stmt :=
  match opening with
  | .declaration => (Declaration.read ts).map .declare |>.tolerant
  | .ret line => (Expr.readReturned ts).map (.ret · line) |>.tolerant
  | .call callee =>
    Reading.tolerant <| (Expr.readArguments ts).andThen fun args rest _ =>
      (expectSeparator ";" rest).map fun _ => .call callee args
  | .assignment target =>
    Reading.tolerant <| (Assignment.readTo target ts).andThen fun assignment rest _ =>
      (expectSeparator ";" rest).map fun _ => .assign assignment
  | .branch =>
    (Expr.readCondition ts).tolerant.andThen fun cond rest _ =>
      (readBlock rest).andThen fun yes rest _ =>
        (readElse rest).map fun no => .branch cond yes no
  | .loop =>
    (LoopHead.read ts).tolerant.andThen fun head rest _ =>
      (readBlock rest).map fun body => .loop head.init head.cond head.step body
termination_by (ts.length, 3)
decreasing_by all_goals omega

/-- The block after `else`, if there is one. -/
def readElse (ts : List Token) : Tolerant ts (Option Block) :=
  match ts with
  | [] => Reading.tolerant (.done none)
  | t :: ts =>
    if t.is .keyword "else" then .after t <| (readBlock ts).map some
    else Reading.tolerant (.done none)
termination_by (ts.length, 2)
decreasing_by all_goals rw [List.length_cons]; omega

end

end Stmt

end MiniC
