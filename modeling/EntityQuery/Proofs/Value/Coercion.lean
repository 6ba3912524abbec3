import EntityQuery.Proofs.Number.Rational
import EntityQuery.Proofs.Value.Conversion

/-!
# Integers that are converted

An integer kind converts the integers of both variants that lie between its bounds and nothing else,
and the number stays the same. Members of the kind read the same values with the same number. So
conversion into a kind that was converted into before changes nothing.

* `Kind.bounds?` — the least and the greatest number of an integer kind.
* `Kind.number?`, `Kind.word?` — from the values of an integer kind to numbers and back.
* `Kind.coerce?_eq_bind`, `ScalarType.decode?_eq_bind` — conversion and reading go through the number.
* `Kind.rational_of_coerce?` — conversion of integers into decimal numbers.
* `Kind.coerce_exact` — conversion of integers is exact.
-/

namespace EntityQuery

namespace Kind

/-- The least and the greatest number of an integer kind. -/
def bounds? : Kind → Option (Int × Int)
  | .signed w => some (-(2 ^ (w.bits - 1)), 2 ^ (w.bits - 1) - 1)
  | .unsigned w => some (0, 2 ^ w.bits - 1)
  | _ => none

/-- The number of a value in the variant of an integer kind. -/
def number? : Kind → Value → Option Int
  | .signed _, .int i => some i.toInt
  | .unsigned _, .uint n => some n.toNat
  | _, _ => none

/-- The value of an integer kind for a number between its bounds. -/
def word? : Kind → Int → Option Value
  | .signed w, i => if fitsSigned w i then some (.int (Int64.ofInt i)) else none
  | .unsigned w, i => if fitsUnsigned w i then some (.uint (UInt64.ofNat i.toNat)) else none
  | _, _ => none

variable {k : Kind} {low high i : Int} {v w : Value}

/-- A number between the bounds has one value, which denotes it. -/
theorem word?_eq_some_iff (hk : k.bounds? = some (low, high)) :
    k.word? i = some w ↔ (low ≤ i ∧ i ≤ high) ∧ k.number? w = some i := by
  cases k with
  | signed width =>
    cases hk
    have hbounds : fitsSigned width i = true ↔
        -(2 ^ (width.bits - 1)) ≤ i ∧ i ≤ 2 ^ (width.bits - 1) - 1 := by
      rw [ScalarType.fitsSigned_iff, Int.le_sub_one_iff]
    rw [word?, Option.ite_none_right_eq_some, ← hbounds]
    refine and_congr_right fun hfits => ?_
    have hback : (Int64.ofInt i).toInt = i := by
      have hwide := ScalarType.fitsSigned_iff.mp (ScalarType.fitsSigned_wide hfits)
      simp only [Width.bits] at hwide
      exact Int64.toInt_ofInt_of_le (by omega) (by omega)
    constructor
    · intro h
      cases h
      exact congrArg some hback
    · intro h
      cases w with
      | int n =>
        cases h
        rw [Int64.ofInt_toInt]
      | _ => cases h
  | unsigned width =>
    cases hk
    have hbounds : fitsUnsigned width i = true ↔ 0 ≤ i ∧ i ≤ 2 ^ width.bits - 1 := by
      rw [ScalarType.fitsUnsigned_iff, Int.le_sub_one_iff]
    rw [word?, Option.ite_none_right_eq_some, ← hbounds]
    refine and_congr_right fun hfits => ?_
    have hback : ((UInt64.ofNat i.toNat).toNat : Int) = i := by
      have hwide := ScalarType.fitsUnsigned_iff.mp (ScalarType.fitsUnsigned_wide hfits)
      simp only [Width.bits] at hwide
      rw [UInt64.toNat_ofNat_of_lt' (by rw [UInt64.size]; omega)]
      omega
    constructor
    · intro h
      cases h
      exact congrArg some hback
    · intro h
      cases w with
      | uint n =>
        cases h
        rw [Int.toNat_natCast, UInt64.ofNat_toNat]
      | _ => cases h
  | _ => cases hk

/-- A value of an integer kind is the one of its number. -/
theorem word?_of_accepts (h : k.accepts v) (hv : k.number? v = some i) : k.word? i = some v := by
  cases k with
  | signed width =>
    cases v with
    | int n =>
      cases hv
      have hfits : fitsSigned width n.toInt := h
      rw [word?, if_pos hfits, Int64.ofInt_toInt]
    | _ => cases hv
  | unsigned width =>
    cases v with
    | uint n =>
      cases hv
      have hfits : fitsUnsigned width n.toNat := h
      rw [word?, if_pos hfits, Int.toNat_natCast, UInt64.ofNat_toNat]
    | _ => cases hv
  | _ => cases hv

/-- Conversion into an integer kind goes through the number of a value. -/
theorem coerce?_eq_bind (hk : k.bounds? = some (low, high)) (v : Value) :
    k.coerce? v = (integer? v).bind k.word? := by
  cases k with
  | signed width =>
    cases v with
    | int i =>
      rw [integer?, Option.bind_some, word?, Int64.ofInt_toInt]
      rfl
    | uint n =>
      rw [integer?, Option.bind_some, word?, Int64.ofInt_eq_ofNat]
      rfl
    | _ => rfl
  | unsigned width =>
    cases v with
    | uint n =>
      rw [integer?, Option.bind_some, word?, Int.toNat_natCast, UInt64.ofNat_toNat]
      rfl
    | _ => rfl
  | _ => cases hk

/-- An integer is converted into the decimal number that denotes the same. -/
theorem rational_of_coerce? (h : integer? v = some i) :
    ∃ d : Decimal, decimal.coerce? v = some (.decimal d) ∧ d.rational = i := by
  cases v with
  | int n =>
    cases h
    exact ⟨_, rfl, Decimal.rational_ofInt64 n⟩
  | uint n =>
    cases h
    exact ⟨_, rfl, Decimal.rational_ofUInt64 n⟩
  | _ => cases h

end Kind

/-- A member of an integer kind reads the number of a value. -/
theorem ScalarType.decode?_eq_bind {k : Kind} {low high : Int}
    (hk : k.bounds? = some (low, high)) (v : Value) :
    (ofKind k).decode? v = (Kind.integer? v).bind fun i => (k.word? i).map fun _ => .integer i := by
  cases k with
  | signed width =>
    rw [decode?]
    congr 1
    funext i
    rw [Kind.word?]
    split <;> rfl
  | unsigned width =>
    rw [decode?]
    congr 1
    funext i
    rw [Kind.word?]
    split <;> rfl
  | _ => cases hk

namespace Kind

/-- Conversion of integers is exact. Into an integer kind the integers between the bounds are
converted, from both variants, and nothing else; the converted value is of the variant of the kind and
denotes the same number, and it is this number that members of the kind read from the value. Every
integer is converted into the decimal number that denotes the same. What is converted into any kind is
a value of the kind, and its own conversion. -/
theorem coerce_exact :
    (∀ k low high, bounds? k = some (low, high) → ∀ v : Value,
      (∀ w, k.coerce? v = some w ↔
        ∃ i, integer? v = some i ∧ (low ≤ i ∧ i ≤ high) ∧ k.number? w = some i) ∧
      ∀ d, (ScalarType.ofKind k).decode? v = some d ↔
        ∃ w i, k.coerce? v = some w ∧ k.number? w = some i ∧ d = .integer i) ∧
    (∀ v i, integer? v = some i →
      ∃ d : Decimal, decimal.coerce? v = some (.decimal d) ∧ d.rational = i) ∧
    ∀ k v w, coerce? k v = some w → k.accepts w ∧ k.coerce? w = some w := by
  refine ⟨fun k low high hk v => ⟨fun w => ?_, fun d => ?_⟩, fun v i => rational_of_coerce?,
    fun k v w h => ⟨accepts_of_coerce? h, coerce?_of_accepts (accepts_of_coerce? h)⟩⟩
  · rw [coerce?_eq_bind hk, Option.bind_eq_some_iff]
    simp only [word?_eq_some_iff hk]
  · rw [ScalarType.decode?_eq_bind hk, coerce?_eq_bind hk]
    constructor
    · intro h
      obtain ⟨i, hi, h⟩ := Option.bind_eq_some_iff.mp h
      obtain ⟨w, hw, rfl⟩ := Option.map_eq_some_iff.mp h
      exact ⟨w, i, by rw [hi, Option.bind_some, hw], ((word?_eq_some_iff hk).mp hw).2, rfl⟩
    · rintro ⟨w, i, h, hw, rfl⟩
      obtain ⟨j, hj, hword⟩ := Option.bind_eq_some_iff.mp h
      cases hw.symm.trans ((word?_eq_some_iff hk).mp hword).2
      rw [hj, Option.bind_some, hword, Option.map_some]

/-- The greatest number of 8 unsigned bits as a signed word. -/
theorem coerce_exact_byte :
    (unsigned .w8).bounds? = some (0, 255) ∧
      (unsigned .w8).coerce? (.int 255) = some (.uint 255) ∧
      (ScalarType.ofKind (unsigned .w8)).decode? (.int 255) = some (.integer 255) ∧
      (∃ d : Decimal, decimal.coerce? (.int 255) = some (.decimal d) ∧ d.rational = (255 : Int)) ∧
      (unsigned .w8).accepts (.uint 255) := by
  obtain ⟨hinteger, hdecimal, hany⟩ := coerce_exact
  obtain ⟨hcoerce, hdecode⟩ := hinteger (unsigned .w8) 0 255 rfl (.int 255)
  have hbyte : (unsigned .w8).coerce? (.int 255) = some (.uint 255) :=
    (hcoerce _).mpr ⟨255, rfl, by decide, rfl⟩
  exact ⟨rfl, hbyte, (hdecode _).mpr ⟨_, 255, hbyte, rfl, rfl⟩, hdecimal _ 255 rfl,
    (hany _ _ _ hbyte).1⟩

end Kind

end EntityQuery
