import EntityQuery.Text.Folding

/-!
# Regular expressions

Regular expressions in the common notation, as far as they are parts that follow one another: single
characters, any character, any run of characters, and the two ends of a text. Letters match in either
case, and the end of a line is a character like any other. An expression may match anywhere in a
text.

* `isMeta`, `escape` — the notation of a character that stands for itself.
* `RegexPart`, `readRegex?` — the parts of an expression, and reading them.
* `matchRow` — the places of a text where the parts match, in one pass for each part.
* `regexFound` — whether an expression matches somewhere in a text.
-/

namespace EntityQuery

/-! ### Notation -/

/-- The characters with a meaning of their own. -/
def metaChars : List Char :=
  ['\\', '.', '+', '*', '?', '(', ')', '|', '[', ']', '\x7b', '\x7d', '^', '$', '#', '&', '-', '~']

/-- Whether a character has a meaning of its own. -/
def isMeta (c : Char) : Bool := metaChars.contains c

/-- A character that stands for itself. -/
def escape (c : Char) : List Char := if isMeta c then ['\\', c] else [c]

/-- A part of an expression. -/
inductive RegexPart where
  | start
  | finish
  | anyOne
  | anyRun
  | letter (c : Char)
  deriving DecidableEq, Repr

/-- The parts of an expression. Other uses of characters with a meaning are not read. -/
def readRegex? : List Char → Option (List RegexPart)
  | [] => some []
  | '^' :: cs => (readRegex? cs).map (.start :: ·)
  | '$' :: cs => (readRegex? cs).map (.finish :: ·)
  | '.' :: '*' :: cs => (readRegex? cs).map (.anyRun :: ·)
  | '.' :: cs => (readRegex? cs).map (.anyOne :: ·)
  | '\\' :: c :: cs => if isMeta c then (readRegex? cs).map (.letter c :: ·) else none
  | c :: cs => if isMeta c then none else (readRegex? cs).map (.letter c :: ·)

/-! ### Matching -/

/-- For each suffix of a row, the longest first, whether it holds a true entry. -/
def anyFrom : List Bool → List Bool
  | [] => []
  | b :: bs =>
    let rest := anyFrom bs
    (b || rest.headD false) :: rest

/-- The places of a text, from its start to its end, where a part and the parts after it match, given
the places where the parts after it match. -/
def extendRow (cs : List Char) (after : List Bool) : RegexPart → List Bool
  | .start => after.headD false :: cs.map fun _ => false
  | .finish => cs.map (fun _ => false) ++ [after.getLastD false]
  | .anyOne => after.tail ++ [false]
  | .anyRun => anyFrom after
  | .letter c => (cs.zip after.tail).map (fun (d, m) => sameLetter c d && m) ++ [false]

/-- The places of a text, from its start to its end, where the parts match. No parts at all match
everywhere. -/
def matchRow (cs : List Char) : List RegexPart → List Bool
  | [] => List.replicate (cs.length + 1) true
  | part :: parts => extendRow cs (matchRow cs parts) part

/-- Whether the parts match somewhere in a text. -/
def regexFound (cs : List Char) (parts : List RegexPart) : Bool := (matchRow cs parts).contains true

/-- There are as many suffixes with as without a true entry looked for. -/
@[simp] theorem length_anyFrom (bs : List Bool) : (anyFrom bs).length = bs.length := by
  induction bs with
  | nil => rfl
  | cons b bs ih => simp [anyFrom, ih]

/-- A text has one place more than it has characters. -/
@[simp] theorem length_matchRow (cs : List Char) (parts : List RegexPart) :
    (matchRow cs parts).length = cs.length + 1 := by
  induction parts with
  | nil => simp [matchRow]
  | cons part parts ih => cases part <;> simp [matchRow, extendRow, ih]

end EntityQuery
