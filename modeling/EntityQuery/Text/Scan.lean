import EntityQuery.Text.Blank
import EntityQuery.Number.Digits

/-!
# Scanning texts from the left

A `Scan` reads a value from the start of a text and gives the rest, or fails.

* `Scan.literal`, `Scan.blanks` — expect a literal, skip blanks.
* `Scan.digits`, `Scan.number` — between a least and a greatest number of digits.
* `Scan.wholeNumber` — as many digits as there are.
* `Scan.many`, `Scan.separated` — repeat a scan as long as it succeeds.
* `Scan.written` — the text that a scan reads.
* `Scan.run?` — scan a whole text.
-/

namespace EntityQuery

/-- Read a value from the start of a text. -/
abbrev Scan (α : Type) := StateT (List Char) Option α

namespace Scan

/-- Refuse the text. -/
def refuse {α : Type} : Scan α := fun _ => none

/-- Accept a value under a condition. -/
def guardThat (p : Bool) : Scan Unit := fun cs => if p then some ((), cs) else none

/-- Expect the given characters. -/
def literal (expected : List Char) : Scan Unit := fun cs =>
  if expected.isPrefixOf cs then some ((), cs.drop expected.length) else none

/-- Expect one character of the given class. -/
def one (p : Char → Bool) : Scan Char := fun cs =>
  match cs with
  | c :: rest => if p c then some (c, rest) else none
  | [] => none

/-- Skip blanks. -/
def blanks : Scan Unit := fun cs => some ((), trimStart cs)

/-- Read the longest run of characters of a class. -/
def while_ (p : Char → Bool) : Scan (List Char) := fun cs => some (cs.takeWhile p, cs.dropWhile p)

/-- Whether the rest starts with the given character, without reading it. -/
def startsWith (c : Char) : Scan Bool := fun cs => some (cs.head? == some c, cs)

/-- Read digits, at least `least` and at most `most` of them. -/
def digits (least most : Nat) : Scan (List Char) := fun cs =>
  let run := (cs.takeWhile Char.isDigit).take most
  if least ≤ run.length then some (run, cs.drop run.length) else none

/-- Read a number of at least `least` and at most `most` digits. -/
def number (least most : Nat) : Scan Nat :=
  (Nat.ofDigitChars 10 · 0) <$> digits least most

/-- Read a number of as many digits as there are, at least one. -/
def wholeNumber : Scan Nat := do
  let run ← while_ Char.isDigit
  guardThat !run.isEmpty
  return Nat.ofDigitChars 10 run 0

/-- Repeat a scan as long as it succeeds, but at most `n` times. -/
def upTo {α : Type} (scan : Scan α) : Nat → Scan (List α)
  | 0 => pure []
  | n + 1 => fun cs =>
    match scan cs with
    | none => some ([], cs)
    | some (a, rest) => (upTo scan n rest).map fun (as, rest) => (a :: as, rest)

/-- Repeat a scan that reads at least one character, as long as it succeeds. -/
def many {α : Type} (scan : Scan α) : Scan (List α) := fun cs => upTo scan cs.length cs

/-- At least one item, with separators between items. -/
def separated {α : Type} (separator : Scan Unit) (item : Scan α) : Scan (List α) := do
  let first ← item
  let others ← many (do separator; item)
  return first :: others

/-- The text that a scan reads. -/
def written {α : Type} (scan : Scan α) : Scan (List Char) := fun cs =>
  (scan cs).map fun (_, rest) => (cs.take (cs.length - rest.length), rest)

/-- Scan a whole text. -/
def run? {α : Type} (scan : Scan α) (cs : List Char) : Option α :=
  match scan cs with
  | some (a, []) => some a
  | _ => none

/-- A literal is read from a text that starts with it. -/
theorem literal_append (expected rest : List Char) :
    literal expected (expected ++ rest) = some ((), rest) := by
  simp [literal, List.isPrefixOf_iff_prefix]

/-- A run of digits splits the text it is read from. -/
theorem digits_append {least most : Nat} {cs run rest : List Char}
    (h : digits least most cs = some (run, rest)) : run ++ rest = cs := by
  unfold digits at h
  dsimp only at h
  split at h
  · obtain ⟨rfl, rfl⟩ := Prod.mk.inj (Option.some.inj h)
    have start : (cs.takeWhile Char.isDigit).take most <+: cs :=
      (List.take_prefix ..).trans (List.takeWhile_prefix _)
    exact List.prefix_iff_eq_append.1 start
  · exact nomatch h

end Scan

end EntityQuery
