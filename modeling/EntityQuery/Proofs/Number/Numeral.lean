import Mathlib.Tactic.Ring
import EntityQuery.Number.Digits
import EntityQuery.Text.Blank

/-!
# Numerals

The grammar of integers as they are typed: an optional sign and decimal digits, with blanks around
them. The readers of numbers accept exactly these texts and give the number the digits denote, the
first digit counting for the highest power of ten.

* `placeValue`, `IsDigits` — decimal digits and the number they denote.
* `Numeral` — the texts of integers, with a minus sign or without.
* `Spells` — a text of an integer with blanks around it.
* `readInteger?_eq_some_iff` — the readers accept the numerals.
* `readInteger?_trim_eq_some_iff` — and, after trimming, the numerals with blanks around them.
-/

namespace EntityQuery

/-- The number denoted by decimal digits, the last one counting for itself. -/
def placeValue : List Char → Nat
  | [] => 0
  | c :: cs => (c.toNat - '0'.toNat) * 10 ^ cs.length + placeValue cs

/-- One or more decimal digits. -/
def IsDigits (cs : List Char) : Prop := cs ≠ [] ∧ ∀ c ∈ cs, c.isDigit

/-- The texts of integers: digits, perhaps after a sign, which is a minus only where numbers are
`signed`. -/
inductive Numeral (signed : Bool) : List Char → Int → Prop
  | plain {ds : List Char} (h : IsDigits ds) : Numeral signed ds (placeValue ds)
  | plus {ds : List Char} (h : IsDigits ds) : Numeral signed ('+' :: ds) (placeValue ds)
  | minus {ds : List Char} (hsigned : signed) (h : IsDigits ds) :
      Numeral signed ('-' :: ds) (-placeValue ds)

/-- A text that consists of a numeral and blanks before and after it. -/
def Spells (signed : Bool) (cs : List Char) (i : Int) : Prop :=
  ∃ before numeral after, cs = before ++ numeral ++ after ∧ (∀ c ∈ before, isBlank c) ∧
    (∀ c ∈ after, isBlank c) ∧ Numeral signed numeral i

/-- Read an integer, with a minus sign only where numbers are signed. -/
def readInteger? : Bool → List Char → Option Int
  | true, cs => readSigned? cs
  | false, cs => (readUnsigned? cs).map Int.ofNat

variable {signed : Bool} {cs : List Char} {i : Int}

/-! ### Digits -/

/-- Reading digits from the first on computes their place value. -/
theorem ofDigitChars_eq_placeValue (cs : List Char) (n : Nat) :
    Nat.ofDigitChars 10 cs n = n * 10 ^ cs.length + placeValue cs := by
  induction cs generalizing n with
  | nil => simp [placeValue]
  | cons c cs ih =>
    rw [Nat.ofDigitChars_cons, ih, placeValue, List.length_cons, Nat.pow_succ]
    ring

/-- Reading digits gives what is computed from their place value. -/
theorem map_readNat?_eq_some_iff {α : Type} {f : Nat → α} {a : α} :
    (readNat? cs).map f = some a ↔ IsDigits cs ∧ f (placeValue cs) = a := by
  simp only [Option.map_eq_some_iff, readNat?_eq_some_iff, ofDigitChars_eq_placeValue,
    Nat.zero_mul, Nat.zero_add, IsDigits]
  constructor
  · rintro ⟨_, ⟨hsome, hdigits, rfl⟩, rfl⟩
    exact ⟨⟨hsome, hdigits⟩, rfl⟩
  · rintro ⟨⟨hsome, hdigits⟩, rfl⟩
    exact ⟨_, ⟨hsome, hdigits, rfl⟩, rfl⟩

/-! ### Signs -/

/-- Behind a minus sign the number is negated. -/
theorem readSigned?_minus (ds : List Char) :
    readSigned? ('-' :: ds) = (readNat? ds).map fun n : Nat => -(n : Int) := by
  rw [readSigned?]
  cases readNat? ds <;> rfl

/-- The readers of integers accept the numerals and give the number they denote. -/
theorem readInteger?_eq_some_iff : readInteger? signed cs = some i ↔ Numeral signed cs i := by
  constructor
  · intro h
    cases signed with
    | true =>
      rw [readInteger?] at h
      unfold readSigned? at h
      split at h
      · have hminus := (readSigned?_minus _).symm.trans h
        obtain ⟨hdigits, rfl⟩ := map_readNat?_eq_some_iff.mp hminus
        exact .minus rfl hdigits
      · obtain ⟨hdigits, rfl⟩ := map_readNat?_eq_some_iff.mp h
        exact .plus hdigits
      · obtain ⟨hdigits, rfl⟩ := map_readNat?_eq_some_iff.mp h
        exact .plain hdigits
    | false =>
      rw [readInteger?] at h
      unfold readUnsigned? at h
      split at h <;> obtain ⟨hdigits, rfl⟩ := map_readNat?_eq_some_iff.mp h
      · exact .plus hdigits
      · exact .plain hdigits
  · intro h
    cases h with
    | plain h =>
      have hread : readNat? cs = some (placeValue cs) := by
        rw [← Option.map_id' (x := readNat? cs)]
        exact map_readNat?_eq_some_iff.mpr ⟨h, rfl⟩
      cases signed with
      | true => exact readSigned?_of_readNat? hread
      | false => exact congrArg (Option.map Int.ofNat) (readUnsigned?_of_readNat? hread)
    | plus h => cases signed <;> exact map_readNat?_eq_some_iff.mpr ⟨h, rfl⟩
    | minus hsigned h =>
      subst hsigned
      exact (readSigned?_minus _).trans (map_readNat?_eq_some_iff.mpr ⟨h, rfl⟩)

/-! ### Blanks around a numeral -/

/-- No character of a numeral is a blank. -/
theorem Numeral.not_isBlank (h : Numeral signed cs i) : ∀ c ∈ cs, isBlank c = false := by
  have hdigits {ds : List Char} (h : IsDigits ds) : ∀ c ∈ ds, isBlank c = false :=
    fun c hc => not_isBlank_of_isDigit (h.2 c hc)
  cases h with
  | plain h => exact hdigits h
  | plus h => exact List.forall_mem_cons.mpr ⟨rfl, hdigits h⟩
  | minus _ h => exact List.forall_mem_cons.mpr ⟨rfl, hdigits h⟩

/-- A text of an integer has a character that is no blank. -/
theorem Spells.exists_not_isBlank (h : Spells signed cs i) : ∃ c ∈ cs, isBlank c = false := by
  obtain ⟨before, numeral, after, rfl, -, -, h⟩ := h
  have hsome : numeral ≠ [] := by
    cases h with
    | plain h => exact h.1
    | _ => exact List.cons_ne_nil _ _
  obtain ⟨c, hc⟩ := List.exists_mem_of_ne_nil numeral hsome
  exact ⟨c, List.mem_append_left _ (List.mem_append_right _ hc), h.not_isBlank c hc⟩

/-- The readers of integers, given what is left of a text without the blanks at its ends, accept the
numerals with blanks around them. -/
theorem readInteger?_trim_eq_some_iff :
    readInteger? signed (trim cs) = some i ↔ Spells signed cs i := by
  rw [readInteger?_eq_some_iff]
  constructor
  · intro h
    obtain ⟨before, after, hbefore, hafter, hcs⟩ := exists_eq_append_trim cs
    exact ⟨before, trim cs, after, hcs, hbefore, hafter, h⟩
  · rintro ⟨before, numeral, after, rfl, hbefore, hafter, h⟩
    rwa [trim_append hbefore hafter h.not_isBlank]

end EntityQuery
