import Mathlib
import MiniC.CommandLine.Response
import MiniC.Proofs.Code.Supply
import MiniC.Proofs.Grammar.Salvage

/-!
# Reading listings back

A listing has one line for each instruction, and spaces between the words of a line. Names may be
words of the listing (`call`, `goto`, `L1`), and a string may hold spaces, newlines and whole lines
of code. A reader that knows of quotes still finds the words (`Listing.cut`), and the number of
words and the words at fixed places tell the instructions apart (`Instruction.ofWords`). Main
statements: `Code.ofListing_listing` and `Program.lower_eq_of_listing_eq`.
-/

namespace MiniC

/-! ## 1. Listings and their reader -/

/-- The code as printed: one line for each instruction. -/
def Code.listing (code : Code) : String := CommandLine.unlines (code.map Instruction.text)

namespace Listing

/-- Puts a character before the first word of the first line. -/
def addChar (c : Char) : List (List (List Char)) → List (List (List Char))
  | (word :: line) :: lines => ((c :: word) :: line) :: lines
  | [] :: lines => [[c]] :: lines
  | [] => [[[c]]]

/-- Puts an empty word before the first line. -/
def addWord : List (List (List Char)) → List (List (List Char))
  | line :: lines => ([] :: line) :: lines
  | [] => [[[]]]

/-- The lines of a text, cut into words. Quoted spaces and newlines do not cut. -/
def cut (quoted : Bool) : List Char → List (List (List Char))
  | [] => []
  | c :: cs =>
    if quoted = false ∧ c = '\n' then [[]] :: cut false cs
    else if quoted = false ∧ c = ' ' then addWord (cut false cs)
    else addChar c (cut (quoted != (c = '"')) cs)

end Listing

namespace Instruction

/-- The words of an instruction as printed. -/
def words : Instruction → List String
  | .binary dest left op right => [dest, "=", left, op.symbol, right]
  | .unary dest op operand => [dest, "=", op.symbol ++ operand]
  | .copy dest source => [dest, "=", source]
  | .param value => ["param", value]
  | .call dest callee argc => [dest, "=", "call", callee ++ ",", toString argc]
  | .label name => [name ++ ":"]
  | .goto target => ["goto", target]
  | .ifFalse cond target => ["ifFalse", cond, "goto", target]
  | .funcBegin name => ["func", "begin", name]
  | .funcEnd name => ["func", "end", name]
  | .ret (some value) => ["return", value]
  | .ret none => ["return"]

/-- What comes after `=`: an operator and its operand, or a value to copy. -/
def ofValue (dest value : String) : Instruction :=
  match value.toList with
  | [] => .copy dest value
  | c :: cs =>
    match UnaryOp.ofSymbol? (String.singleton c) with
    | some op => .unary dest op (String.ofList cs)
    | none => .copy dest value

/-- The text without its last character. -/
def chop (text : String) : String := String.ofList text.toList.dropLast

/-- The instruction that is printed with these words. Their number comes first; a word that only
    one form of that length has is not looked at. -/
def ofWords : List String → Option Instruction
  | [mark] => if mark = "return" then some (.ret none) else some (.label (chop mark))
  | [verb, operand] =>
    if verb = "param" then some (.param operand)
    else if verb = "goto" then some (.goto operand)
    else if verb = "return" then some (.ret (some operand))
    else none
  | [first, second, third] =>
    if second = "=" then some (ofValue first third)
    else if second = "begin" then some (.funcBegin third)
    else if second = "end" then some (.funcEnd third)
    else none
  | [_, cond, _, target] => some (.ifFalse cond target)
  | [dest, _, left, sign, right] =>
    match BinaryOp.ofSymbol? sign with
    | some op => some (.binary dest left op right)
    | none => some (.call dest (chop sign) (Nat.ofDigitChars 10 right.toList 0))
  | _ => none

end Instruction

/-- **The code read from a listing.** -/
def Code.ofListing (text : String) : Option Code :=
  (Listing.cut false text.toList).mapM fun line => Instruction.ofWords (line.map String.ofList)

/-! ## 2. Words that are found again -/

namespace Listing

/-- Whether every space and newline of the word is quoted, and every quote closed. -/
def solid (quoted : Bool) : List Char → Bool
  | [] => !quoted
  | c :: cs => (quoted || (c ≠ '\n' && c ≠ ' ')) && solid (quoted != (c = '"')) cs

theorem cut_word {quoted : Bool} {word rest : List Char} {line : List (List Char)}
    {lines : List (List (List Char))} (h : solid quoted word = true)
    (hrest : cut false rest = ([] :: line) :: lines) :
    cut quoted (word ++ rest) = (word :: line) :: lines := by
  induction word generalizing quoted with
  | nil =>
    have hquoted : quoted = false := by simpa [solid] using h
    rw [hquoted, List.nil_append, hrest]
  | cons c word ih =>
    rw [solid, Bool.and_eq_true] at h
    obtain ⟨hc, hword⟩ := h
    have hline : ¬(quoted = false ∧ c = '\n') := by
      rintro ⟨rfl, rfl⟩
      cases hc
    have hspace : ¬(quoted = false ∧ c = ' ') := by
      rintro ⟨rfl, rfl⟩
      cases hc
    rw [List.cons_append, cut, if_neg hline, if_neg hspace, ih hword, addChar]

/-- **A line of solid words is cut into these words.** -/
theorem cut_line {words : List (List Char)} (hne : words ≠ [])
    (h : ∀ word ∈ words, solid false word = true) (rest : List Char) :
    cut false ([' '].intercalate words ++ '\n' :: rest) = words :: cut false rest := by
  induction words with
  | nil => exact absurd rfl hne
  | cons word words ih =>
    obtain ⟨hword, hwords⟩ := List.forall_mem_cons.mp h
    cases words with
    | nil =>
      have hend : cut false ('\n' :: rest) = [[]] :: cut false rest := rfl
      rw [List.intercalate_singleton]
      exact cut_word hword hend
    | cons word' words =>
      have hrest := ih (List.cons_ne_nil _ _) hwords
      have hgap : cut false (' ' :: ([' '].intercalate (word' :: words) ++ '\n' :: rest)) =
          ([] :: word' :: words) :: cut false rest := by
        rw [cut, if_neg (by decide), if_pos (by decide), hrest, addWord]
      rw [List.intercalate_cons_cons, List.append_assoc, List.append_assoc, List.singleton_append]
      exact cut_word hword hgap

theorem solid_append {quoted : Bool} {front back : List Char} (h : solid quoted front = true)
    (h' : solid false back = true) : solid quoted (front ++ back) = true := by
  induction front generalizing quoted with
  | nil =>
    have hquoted : quoted = false := by simpa [solid] using h
    rw [hquoted, List.nil_append, h']
  | cons c front ih =>
    rw [solid, Bool.and_eq_true] at h
    rw [List.cons_append, solid, h.1, ih h.2, Bool.and_true]

/-- Letters, digits, underscores and points come after spaces, newlines and quotes, and after the
    signs of operations. -/
theorem solid_of_toNat {word : List Char} (h : ∀ c ∈ word, 46 ≤ c.toNat) :
    solid false word = true := by
  induction word with
  | nil => rfl
  | cons c word ih =>
    obtain ⟨hc, hword⟩ := List.forall_mem_cons.mp h
    have hne : ∀ d : Char, d.toNat < 46 → c ≠ d := by
      rintro d hd rfl
      omega
    simp [solid, hne '\n' (by decide), hne ' ' (by decide), hne '"' (by decide), ih hword]

theorem le_toNat_of_mem_toDigits {n : Nat} {c : Char} (h : c ∈ Nat.toDigits 10 n) :
    46 ≤ c.toNat := by
  have := isDigit_iff_toNat.mp (Nat.isDigit_of_mem_toDigits (by decide) (by decide) h)
  omega

theorem solid_quoted {body : List Char} (h : '"' ∉ body) :
    solid false ('"' :: (body ++ ['"'])) = true := by
  have hbody : solid true (body ++ ['"']) = true := by
    induction body with
    | nil => rfl
    | cons c body ih =>
      obtain ⟨hc, hrest⟩ := List.ne_and_not_mem_of_not_mem_cons h
      simp [solid, hc.symm, ih hrest]
  simpa [solid] using hbody

/-- **A word that is found again in a listing:** it is solid, and does not start as an operation
    does. -/
structure Legible (word : String) : Prop where
  solid : solid false word.toList = true
  unsigned : ∀ c ∈ word.toList.head?, UnaryOp.ofSymbol? (String.singleton c) = none

end Listing

/-! ## 3. Instructions that are read back -/

namespace Instruction

open Listing

/-- The names and values in an instruction. -/
def parts : Instruction → List String
  | .binary dest left _ right => [dest, left, right]
  | .unary dest _ operand => [dest, operand]
  | .copy dest source => [dest, source]
  | .param value => [value]
  | .call dest callee _ => [dest, callee]
  | .label name => [name]
  | .goto target => [target]
  | .ifFalse cond target => [cond, target]
  | .funcBegin name | .funcEnd name => [name]
  | .ret value => value.toList

/-- Every name and value in the instruction is found again. -/
def Legible (i : Instruction) : Prop := ∀ part ∈ i.parts, Listing.Legible part

theorem toList_text (i : Instruction) :
    i.text.toList = [' '].intercalate (i.words.map String.toList) := by
  cases i with
  | ret value => cases value <;> simp [text, words]
  | _ => simp [text, words]

theorem words_ne_nil (i : Instruction) : i.words ≠ [] := by
  cases i with
  | ret value => cases value <;> simp [words]
  | _ => simp [words]

theorem chop_push (word : String) (c : Char) : chop (word ++ String.singleton c) = word := by
  simp [chop]

theorem ofValue_operation (dest operand : String) (op : UnaryOp) :
    ofValue dest (op.symbol ++ operand) = .unary dest op operand := by
  obtain ⟨sign, hsign⟩ : ∃ sign, op.symbol = String.singleton sign := by
    cases op with
    | neg => exact ⟨'-', rfl⟩
    | not => exact ⟨'!', rfl⟩
  have hlist : (op.symbol ++ operand).toList = sign :: operand.toList := by
    simp [hsign]
  simp only [ofValue, hlist, ← hsign, UnaryOp.ofSymbol?_symbol, String.ofList_toList]

theorem ofValue_legible {source : String} (h : Listing.Legible source) (dest : String) :
    ofValue dest source = .copy dest source := by
  unfold ofValue
  cases hsource : source.toList with
  | nil => rfl
  | cons c cs =>
    have hc : UnaryOp.ofSymbol? (String.singleton c) = none := h.unsigned c (by simp [hsource])
    simp only [hc]

/-- No operator ends in a comma. -/
theorem ofSymbol?_comma (callee : String) : BinaryOp.ofSymbol? (callee ++ ",") = none := by
  rw [Option.eq_none_iff_forall_ne_some]
  intro op hop
  have hsymbol := congrArg String.toList (BinaryOp.symbol_of_ofSymbol? hop)
  have hmem : ',' ∈ op.symbol.toList := by simp [hsymbol]
  cases op <;> exact absurd hmem (by decide)

theorem ne_return_of_colon (name : String) : name ++ ":" ≠ "return" := by
  intro heq
  have hmem : ':' ∈ "return".toList := by simp [← heq]
  exact absurd hmem (by decide)

/-- **The words of an instruction tell which one it is.** Only two pairs of forms have as many words
    with the same ones in fixed places: operations and copies, which the sign tells apart, and
    operations and calls, which the comma does. -/
theorem ofWords_words {i : Instruction} (h : i.Legible) : ofWords i.words = some i := by
  cases i with
  | unary dest op operand => simp [words, ofWords, ofValue_operation]
  | copy dest source =>
    have hsource : Listing.Legible source := h source (by simp [parts])
    simp [words, ofWords, ofValue_legible hsource]
  | call dest callee argc =>
    have hcallee : chop (callee ++ ",") = callee := chop_push callee ','
    simp [words, ofWords, ofSymbol?_comma, hcallee]
  | label name =>
    have hname : chop (name ++ ":") = name := chop_push name ':'
    simp [words, ofWords, ne_return_of_colon, hname]
  | ret value => cases value <;> simp [words, ofWords]
  | _ => simp [words, ofWords]

/-- Every word of an instruction is solid when the names and values in it are. -/
theorem solid_words {i : Instruction} (h : i.Legible) :
    ∀ word ∈ i.words, solid false word.toList = true := by
  have hparts : ∀ part ∈ i.parts, solid false part.toList = true :=
    fun part hpart => (h part hpart).solid
  cases i with
  | binary dest left op right =>
    have hop : solid false op.symbol.toList = true := by cases op <;> decide
    simpa [words, parts, hop, solid] using hparts
  | unary dest op operand =>
    have hop : solid false op.symbol.toList = true := by cases op <;> decide
    have hoperand := solid_append hop (hparts operand (by simp [parts]))
    have hdest := hparts dest (by simp [parts])
    simp [words, solid, hdest, hoperand]
  | call dest callee argc =>
    have hdest := hparts dest (by simp [parts])
    have hcallee : solid false (callee.toList ++ [',']) = true :=
      solid_append (hparts callee (by simp [parts])) (by decide)
    have hargc : solid false (Nat.toDigits 10 argc) = true :=
      solid_of_toNat fun _ hc => le_toNat_of_mem_toDigits hc
    simp [words, solid, hdest, hcallee, hargc]
  | label name =>
    have hname : solid false (name.toList ++ [':']) = true :=
      solid_append (hparts name (by simp [parts])) (by decide)
    simpa [words] using hname
  | ret value =>
    cases value with
    | none => simp [words, solid]
    | some value => simpa [words, parts, solid] using hparts
  | _ => simpa [words, parts, solid] using hparts

end Instruction

/-- Every name and value in the code is found again. -/
def Code.Legible (code : Code) : Prop := ∀ i ∈ code, i.Legible

/-- A listing is cut into the words of the instructions. -/
theorem Code.cut_listing {code : Code} (h : code.Legible) :
    Listing.cut false code.listing.toList =
      code.map fun i => i.words.map String.toList := by
  induction code with
  | nil => rfl
  | cons i code ih =>
    obtain ⟨hi, hcode⟩ := List.forall_mem_cons.mp h
    have hline : (Code.listing (i :: code)).toList =
        [' '].intercalate (i.words.map String.toList) ++ '\n' :: (Code.listing code).toList := by
      rw [← i.toList_text]
      simp [Code.listing, CommandLine.unlines, String.toList_join]
    have hne : i.words.map String.toList ≠ [] := by
      simp [i.words_ne_nil]
    have hsolid : ∀ word ∈ i.words.map String.toList, Listing.solid false word = true := by
      intro word hword
      obtain ⟨w, hw, rfl⟩ := List.mem_map.mp hword
      exact Instruction.solid_words hi w hw
    rw [hline, Listing.cut_line hne hsolid, ih hcode, List.map_cons]

/-- **A listing is read back.** -/
theorem Code.ofListing_listing {code : Code} (h : code.Legible) :
    Code.ofListing code.listing = some code := by
  have hread : ∀ i ∈ code, Instruction.ofWords ((i.words.map String.toList).map String.ofList) =
      some i := by
    intro i hi
    have hwords : (i.words.map String.toList).map String.ofList = i.words := by
      simp [Function.comp_def]
    rw [hwords]
    exact Instruction.ofWords_words (h i hi)
  rw [ofListing, cut_listing h, List.mapM_map]
  clear h
  induction code with
  | nil => rfl
  | cons i code ih =>
    obtain ⟨hi, hcode⟩ := List.forall_mem_cons.mp hread
    rw [List.mapM_cons, ih hcode, Function.comp_apply, hi]
    rfl

/-! ## 4. The words of programs -/

namespace Listing

theorem legible_of_toNat {word : String} (h : ∀ c ∈ word.toList, 46 ≤ c.toNat) : Legible word where
  solid := solid_of_toNat h
  unsigned c hc := by
    rw [Option.eq_none_iff_forall_ne_some]
    intro op hop
    have hsymbol := congrArg String.toList (UnaryOp.symbol_of_ofSymbol? hop)
    have hrange := h c (List.mem_of_mem_head? hc)
    have hmem : c ∈ op.symbol.toList := by simp [hsymbol]
    have hsigns : op.symbol.toList.all (·.toNat < 46) = true := by
      cases op <;> decide
    have := of_decide_eq_true (List.all_eq_true.mp hsigns c hmem)
    omega

theorem legible_quoted {value : String} (h : '"' ∉ value.toList) :
    Legible ("\"" ++ value ++ "\"") := by
  have hlist : ("\"" ++ value ++ "\"").toList = '"' :: (value.toList ++ ['"']) := by
    simp
  constructor
  · rw [hlist]
    exact solid_quoted h
  · intro c hc
    rw [hlist, List.head?_cons, Option.mem_some] at hc
    rw [← hc]
    decide

/-- A letter and digits make a legible word. -/
theorem legible_numbered {word : String} {c : Char} {n : Nat} (hc : 46 ≤ c.toNat)
    (h : word.toList = c :: Nat.toDigits 10 n) : Legible word := by
  refine legible_of_toNat ?_
  rw [h]
  exact List.forall_mem_cons.mpr ⟨hc, fun _ => le_toNat_of_mem_toDigits⟩

theorem legible_temp (n : Nat) : Legible (temp n) := legible_numbered (by decide) (toList_temp n)

theorem legible_label (n : Nat) : Legible (label n) := legible_numbered (by decide) (toList_label n)

end Listing

theorem IsPlainName.legible {x : String} (h : IsPlainName x) : Listing.Legible x := by
  obtain ⟨c, cs, hx, hc, hcs⟩ := h.admits
  refine Listing.legible_of_toNat ?_
  rw [hx]
  refine List.forall_mem_cons.mpr ⟨?_, fun d hd => ?_⟩
  · have := Token.toNat_of_isNameStart hc
    omega
  · have := Token.toNat_of_isNamePart (hcs d hd)
    omega

theorem IsCalleeName.legible {x : String} (h : IsCalleeName x) : Listing.Legible x := by
  rcases h with h | rfl
  · exact h.legible
  · have hall : "printf".toList.all (46 ≤ ·.toNat) = true := by decide
    exact Listing.legible_of_toNat fun c hc => of_decide_eq_true (List.all_eq_true.mp hall c hc)

theorem IsNumeral.legible {x : String} (h : IsNumeral x) : Listing.Legible x := by
  have hdigits : ∀ {ds : List Char}, Token.IsDigits ds → ∀ d ∈ ds, 46 ≤ d.toNat := by
    intro ds hds d hd
    have := isDigit_iff_toNat.mp (hds.2 d hd)
    omega
  refine Listing.legible_of_toNat ?_
  rcases h with h | ⟨whole, fraction, hx, hwhole, hfraction⟩
  · exact hdigits h
  · rw [hx, List.forall_mem_append]
    exact ⟨hdigits hwhole, List.forall_mem_cons.mpr ⟨by decide, hdigits hfraction⟩⟩

/-! ## 5. Lowered programs -/

namespace Code

@[simp] theorem legible_nil : Legible [] := fun _ hi => absurd hi List.not_mem_nil

@[simp] theorem legible_cons_iff {i : Instruction} {code : Code} :
    Legible (i :: code) ↔ (∀ part ∈ i.parts, Listing.Legible part) ∧ code.Legible :=
  List.forall_mem_cons

@[simp] theorem legible_append_iff {a b : Code} : Legible (a ++ b) ↔ a.Legible ∧ b.Legible :=
  List.forall_mem_append

theorem legible_params {values : List String} (h : ∀ value ∈ values, Listing.Legible value) :
    Legible (values.map .param) := by
  intro i hi
  obtain ⟨value, hvalue, rfl⟩ := List.mem_map.mp hi
  simpa [Instruction.Legible, Instruction.parts] using h value hvalue

end Code

mutual

/-- The code of an expression is legible, and so is the word that holds its value. -/
theorem Expr.legible_lower (temps : Nat) : (e : Expr) → e.Printable →
    (e.lower temps).code.Legible ∧ Listing.Legible (e.lower temps).operand
  | .number _, hp => ⟨Code.legible_nil, IsNumeral.legible hp⟩
  | .string _, hp => ⟨Code.legible_nil, Listing.legible_quoted hp⟩
  | .ident _, hp => ⟨Code.legible_nil, IsPlainName.legible hp⟩
  | .binary op left right, hp => by
    obtain ⟨hcode, hleft⟩ := left.legible_lower temps hp.1
    obtain ⟨hcode', hright⟩ := right.legible_lower (left.lower temps).temps hp.2
    have hdest := Listing.legible_temp ((right.lower (left.lower temps).temps).temps + 1)
    refine ⟨?_, hdest⟩
    simp [Expr.lower, Instruction.parts, hcode, hcode', hdest, hleft, hright]
  | .unary op operand, hp => by
    obtain ⟨hcode, hoperand⟩ := operand.legible_lower temps hp
    have hdest := Listing.legible_temp ((operand.lower temps).temps + 1)
    refine ⟨?_, hdest⟩
    simp [Expr.lower, Instruction.parts, hcode, hdest, hoperand]
  | .call callee args, hp => by
    obtain ⟨hcode, hargs⟩ := Expr.legible_lowerAll temps args hp.2
    have hdest := Listing.legible_temp ((Expr.lowerAll temps args).temps + 1)
    have hparams := Code.legible_params hargs
    refine ⟨?_, hdest⟩
    simp [Expr.lower, Instruction.parts, hcode, hparams, hdest, hp.1.legible]

theorem Expr.legible_lowerAll (temps : Nat) : (es : List Expr) → Expr.PrintableAll es →
    (Expr.lowerAll temps es).code.Legible ∧
      ∀ x ∈ (Expr.lowerAll temps es).operands, Listing.Legible x
  | [], _ => ⟨Code.legible_nil, fun _ hx => absurd hx List.not_mem_nil⟩
  | e :: es, hp => by
    obtain ⟨hcode, hoperand⟩ := e.legible_lower temps hp.1
    obtain ⟨hcode', hoperands⟩ := Expr.legible_lowerAll (e.lower temps).temps es hp.2
    simp only [Expr.lowerAll, Code.legible_append_iff]
    exact ⟨⟨hcode, hcode'⟩, List.forall_mem_cons.mpr ⟨hoperand, hoperands⟩⟩

end

theorem Declaration.legible_lower (supply : Supply) {decl : Declaration} (hp : decl.Printable) :
    (decl.lower supply).code.Legible := by
  cases hinit : decl.init with
  | none => simp [Declaration.lower, hinit]
  | some init =>
    obtain ⟨hcode, hoperand⟩ := init.legible_lower supply.temps (hp.init init hinit)
    simp [Declaration.lower, hinit, Instruction.parts, hcode, hoperand, hp.target.legible]

theorem Assignment.legible_lower (supply : Supply) {a : Assignment} (hp : a.Printable) :
    (a.lower supply).code.Legible := by
  obtain ⟨hcode, hoperand⟩ := a.value.legible_lower supply.temps hp.value
  simp [Assignment.lower, Instruction.parts, hcode, hoperand, hp.target.legible]

mutual

theorem Stmt.legible_lower (supply : Supply) : (stmt : Stmt) → stmt.Printable →
    (stmt.lower supply).code.Legible
  | .declare _, hp => Declaration.legible_lower supply hp
  | .assign _, hp => Assignment.legible_lower supply hp
  | .call callee args, hp => ((Expr.call callee args).legible_lower supply.temps hp).1
  | .ret none _, _ => by simp [Stmt.lower, Instruction.parts]
  | .ret (some value) _, hp => by
    obtain ⟨hcode, hoperand⟩ := value.legible_lower supply.temps (hp value rfl)
    simp [Stmt.lower, Instruction.parts, hcode, hoperand]
  | .branch cond yes no, hp => by
    obtain ⟨hcode, hoperand⟩ := cond.legible_lower supply.temps hp.1
    have hyes := Stmt.legible_lowerAll ⟨(cond.lower supply.temps).temps, supply.labels + 2⟩ yes
      hp.2.1
    have hno := Stmt.legible_lowerElse
      (Stmt.lowerAll ⟨(cond.lower supply.temps).temps, supply.labels + 2⟩ yes).supply no hp.2.2
    simp [Stmt.lower, Instruction.parts, hcode, hoperand, hyes, hno, Listing.legible_label]
  | .loop init cond step body, hp => by
    obtain ⟨hdecl, hcond, hstep, hbody⟩ := hp
    have hinit := Declaration.legible_lower supply hdecl
    obtain ⟨hcode, hoperand⟩ := cond.legible_lower (init.lower supply).supply.temps hcond
    have hloop := Stmt.legible_lowerAll
      ⟨(cond.lower (init.lower supply).supply.temps).temps, (init.lower supply).supply.labels + 2⟩
      body hbody
    have hnext := Assignment.legible_lower (Stmt.lowerAll
      ⟨(cond.lower (init.lower supply).supply.temps).temps, (init.lower supply).supply.labels + 2⟩
      body).supply hstep
    simp [Stmt.lower, Instruction.parts, hinit, hcode, hoperand, hloop, hnext,
      Listing.legible_label]

theorem Stmt.legible_lowerAll (supply : Supply) : (stmts : List Stmt) → Stmt.PrintableAll stmts →
    (Stmt.lowerAll supply stmts).code.Legible
  | [], _ => Code.legible_nil
  | stmt :: stmts, hp => by
    have hfirst := stmt.legible_lower supply hp.1
    have hlater := Stmt.legible_lowerAll (stmt.lower supply).supply stmts hp.2
    simp [Stmt.lowerAll, hfirst, hlater]

theorem Stmt.legible_lowerElse (supply : Supply) : (no : Option (List Stmt)) →
    Stmt.PrintableElse no → (Stmt.lowerElse supply no).code.Legible
  | none, _ => Code.legible_nil
  | some stmts, hp => Stmt.legible_lowerAll supply stmts hp

end

theorem Function.legible_lower (supply : Supply) {f : Function} (hp : f.Printable) :
    (f.lower supply).code.Legible := by
  have hbody := Stmt.legible_lowerAll supply f.body hp.body
  simp [Function.lower, Instruction.parts, hbody, hp.name.legible]

theorem Function.legible_lowerAll (supply : Supply) {fs : List Function}
    (hp : ∀ f ∈ fs, f.Printable) : (Function.lowerAll supply fs).code.Legible := by
  induction fs generalizing supply with
  | nil => exact Code.legible_nil
  | cons f fs ih =>
    obtain ⟨hf, hfs⟩ := List.forall_mem_cons.mp hp
    have hfirst := Function.legible_lower supply hf
    have hlater := ih (f.lower supply).supply hfs
    simp [Function.lowerAll, hfirst, hlater]

/-- **The listing of a program read from a text is read back.** -/
theorem Program.ofListing_lower_read (source : String) :
    Code.ofListing (Program.read (Token.scan source)).program.lower.listing =
      some (Program.read (Token.scan source)).program.lower :=
  Code.ofListing_listing (Function.legible_lowerAll ⟨0, 0⟩ (Program.printable_read source))

/-- **Programs with one listing have one code**, whatever their names and strings. -/
theorem Program.lower_eq_of_listing_eq (source source' : String)
    (h : (Program.read (Token.scan source)).program.lower.listing =
      (Program.read (Token.scan source')).program.lower.listing) :
    (Program.read (Token.scan source)).program.lower =
      (Program.read (Token.scan source')).program.lower := by
  have hread := Program.ofListing_lower_read source
  rw [h, Program.ofListing_lower_read source'] at hread
  exact (Option.some.inj hread).symm

/-- Names and a string that borrow words and lines from listings. -/
def borrowedWords : String :=
  "int func(int goto) \x7b call = L1 - t1; param = \"x = 1\nfunc end func\n\"; \x7d"

/-- The same with parentheses. -/
def borrowedWordsWrapped : String :=
  "int func() \x7b call=((L1)-t1); param = (\"x = 1\nfunc end func\n\"); \x7d"

theorem Program.lower_eq_of_listing_eq_borrowedWords :
    (Program.read (Token.scan borrowedWords)).program.lower.listing =
      (Program.read (Token.scan borrowedWordsWrapped)).program.lower.listing ∧
    (Program.read (Token.scan borrowedWords)).program.lower =
      (Program.read (Token.scan borrowedWordsWrapped)).program.lower := by
  have hlisting : (Program.read (Token.scan borrowedWords)).program.lower.listing =
      (Program.read (Token.scan borrowedWordsWrapped)).program.lower.listing := by cbv
  exact ⟨hlisting, Program.lower_eq_of_listing_eq _ _ hlisting⟩

end MiniC
