/-!
# Decimal digits

Reading and writing natural numbers and integers as decimal digits.

* `readNat?` — one or more digits, leading zeros allowed.
* `readUnsigned?` — an optional plus sign before the digits.
* `readSigned?` — an optional plus or minus sign before the digits.
* `readNat?_toDigits`, `readSigned?_integerDigits` — written numbers read back.
-/

namespace EntityQuery

-- powers of numbers are those that evaluate, whatever else is imported

@[default_instance 20000]
instance (priority := high) natPow : Pow Nat Nat := instPowNat

instance (priority := high) intPow : Pow Int Nat := instPowNat

/-- The number denoted by a non-empty run of decimal digits. -/
def readNat? (cs : List Char) : Option Nat :=
  if !cs.isEmpty && cs.all Char.isDigit then some (Nat.ofDigitChars 10 cs 0) else none

/-- Digits after an optional plus sign. -/
def readUnsigned? : List Char → Option Nat
  | '+' :: cs => readNat? cs
  | cs => readNat? cs

/-- Digits after an optional plus or minus sign. -/
def readSigned? : List Char → Option Int
  | '-' :: cs => (readNat? cs).map fun n => -(n : Int)
  | '+' :: cs => (readNat? cs).map Int.ofNat
  | cs => (readNat? cs).map Int.ofNat

/-- The digits of a number, with zeros in front up to the given width. -/
def paddedDigits (width n : Nat) : List Char :=
  let digits := Nat.toDigits 10 n
  List.replicate (width - digits.length) '0' ++ digits

/-- The digits of an integer after its sign, a minus sign or nothing. -/
def integerDigits : Int → List Char
  | .ofNat n => Nat.toDigits 10 n
  | .negSucc n => '-' :: Nat.toDigits 10 (n + 1)

/-- A written number reads back. -/
theorem readNat?_toDigits (n : Nat) : readNat? (Nat.toDigits 10 n) = some n := by
  have nonempty : (Nat.toDigits 10 n).isEmpty = false := by
    simp [List.isEmpty_eq_false_iff, Nat.toDigits_ne_nil]
  have digits : (Nat.toDigits 10 n).all Char.isDigit = true :=
    List.all_eq_true.2 fun _ h => Nat.isDigit_of_mem_toDigits (by decide) (by decide) h
  simp [readNat?, nonempty, digits, Nat.ofDigitChars_ten_toDigits]

/-- Reading succeeds exactly on non-empty runs of digits. -/
theorem readNat?_eq_some_iff {cs : List Char} {n : Nat} :
    readNat? cs = some n ↔
      cs ≠ [] ∧ (∀ c ∈ cs, c.isDigit = true) ∧ Nat.ofDigitChars 10 cs 0 = n := by
  unfold readNat?
  split <;> rename_i h
  · simp only [Bool.and_eq_true, Bool.not_eq_true', List.isEmpty_eq_false_iff, List.all_eq_true] at h
    exact ⟨fun e => ⟨h.1, h.2, Option.some.inj e⟩, fun e => congrArg some e.2.2⟩
  · simp only [Bool.and_eq_true, Bool.not_eq_true', List.isEmpty_eq_false_iff, List.all_eq_true] at h
    exact ⟨fun e => (nomatch e), fun e => absurd ⟨e.1, e.2.1⟩ h⟩

/-- Digits need no plus sign. -/
theorem readUnsigned?_of_readNat? {cs : List Char} {n : Nat} (h : readNat? cs = some n) :
    readUnsigned? cs = some n := by
  have digits := (readNat?_eq_some_iff.1 h).2.1
  unfold readUnsigned?
  split
  · exact absurd (digits '+' List.mem_cons_self) (by decide)
  · exact h

theorem readSigned?_of_readNat? {cs : List Char} {n : Nat} (h : readNat? cs = some n) :
    readSigned? cs = some (n : Int) := by
  have digits := (readNat?_eq_some_iff.1 h).2.1
  unfold readSigned?
  split
  · exact absurd (digits '-' List.mem_cons_self) (by decide)
  · exact absurd (digits '+' List.mem_cons_self) (by decide)
  · rw [h]
    rfl

/-- A written integer reads back. -/
theorem readSigned?_integerDigits (i : Int) : readSigned? (integerDigits i) = some i := by
  cases i with
  | ofNat n => exact readSigned?_of_readNat? (readNat?_toDigits n)
  | negSucc n =>
    rw [integerDigits, readSigned?, readNat?_toDigits]
    rfl

/-- An integer is written in digits, perhaps behind a minus sign. -/
theorem isDigit_or_eq_minus {i : Int} {c : Char} (h : c ∈ integerDigits i) :
    c.isDigit = true ∨ c = '-' := by
  cases i with
  | ofNat n => exact Or.inl (Nat.isDigit_of_mem_toDigits (by decide) (by decide) h)
  | negSucc n =>
    rcases List.mem_cons.1 h with h | h
    · exact Or.inr h
    · exact Or.inl (Nat.isDigit_of_mem_toDigits (by decide) (by decide) h)

end EntityQuery
