import Mathlib.Tactic.Common
import EntityQuery.Value.Kind

/-!
# Numbers inside the range of the narrow format

Rounding to a number of bits does not lead past a bound of as many bits. So a number that is inside
the range of the narrow format stays inside when it is narrowed, and integers of 64 bits are inside.

* `divHalfEven_le`, `divHalfEven_log2` — rounding and bounds.
* `Binary64.units_ofRatio_le` — the number nearest to a quotient inside the range.
* `Binary64.fitsSingle_toSingle`, `Binary64.fitsSingle_ofInt` — narrowed numbers and integers.
* `Kind.fitsSingle_of_coerce?` — conversion into the narrow kind.
-/

namespace EntityQuery

/-! ### Rounding below a bound -/

/-- A quotient below a whole number is not rounded past it. -/
theorem divHalfEven_le {num den c : Nat} (h : num ≤ c * den) : divHalfEven num den ≤ c := by
  have hquotient : num / den ≤ c := Nat.div_le_of_le_mul (by rwa [Nat.mul_comm])
  rcases Nat.lt_or_eq_of_le hquotient with hless | hequal
  · exact Nat.le_trans (divHalfEven_bounds num den).2 hless
  · -- the quotient is the bound itself, so there is no remainder that could be rounded up
    have hsplit := Nat.div_add_mod num den
    have hremainder : num % den = 0 := by
      rw [hequal, Nat.mul_comm] at hsplit
      omega
    rw [divHalfEven, hremainder, hequal]
    split
    · exact Nat.le_refl c
    · rename_i hden
      have hzero : den = 0 := by omega
      rw [hzero, Nat.div_zero] at hequal
      subst hequal
      rw [hzero]
      decide

/-- A quotient that is rounded to `p + 1` bits stays below a bound of `p + 1` bits: the rounded
quotient has the place of the bound and is not above it, or its place is lower. -/
theorem divHalfEven_log2 {num den c top : Nat} (p : Nat) (hden : 0 < den) (hhigh : c < 2 ^ (p + 1))
    (h : num ≤ c * 2 ^ top * den) :
    let shift := (num / den).log2 - p
    shift = top ∧ divHalfEven num (den * 2 ^ shift) ≤ c ∨
      shift < top ∧ divHalfEven num (den * 2 ^ shift) ≤ 2 ^ (p + 1) := by
  intro shift
  have hquotient : num / den < 2 ^ (p + 1 + top) := by
    rw [Nat.pow_add]
    have hbound : num / den ≤ c * 2 ^ top := Nat.div_le_of_le_mul (by rwa [Nat.mul_comm])
    exact Nat.lt_of_le_of_lt hbound (Nat.mul_lt_mul_of_pos_right hhigh (Nat.two_pow_pos top))
  have hlog : (num / den).log2 < p + 1 + top := by
    by_cases hzero : num / den = 0
    · rw [hzero, Nat.log2_zero]
      omega
    · exact (Nat.log2_lt hzero).mpr hquotient
  rcases Nat.lt_or_eq_of_le (show shift ≤ top by omega) with hlower | hplace
  · refine Or.inr ⟨hlower, divHalfEven_le ?_⟩
    have hfits : num / den + 1 ≤ 2 ^ (p + 1) * 2 ^ shift := by
      rw [← Nat.pow_add]
      have hpow : (num / den).log2 + 1 ≤ p + 1 + shift := by omega
      exact Nat.lt_of_lt_of_le Nat.lt_log2_self (Nat.pow_le_pow_right (by decide) hpow)
    calc num ≤ (num / den + 1) * den := by
          have hsplit := Nat.div_add_mod num den
          have hremainder := Nat.mod_lt num hden
          rw [Nat.succ_mul, Nat.mul_comm]
          omega
      _ ≤ 2 ^ (p + 1) * 2 ^ shift * den := Nat.mul_le_mul_right den hfits
      _ = 2 ^ (p + 1) * (den * 2 ^ shift) := by rw [Nat.mul_assoc, Nat.mul_comm den]
  · refine Or.inl ⟨hplace, divHalfEven_le ?_⟩
    rw [hplace]
    calc num ≤ c * 2 ^ top * den := h
      _ = c * (den * 2 ^ top) := by rw [Nat.mul_assoc, Nat.mul_comm den]

namespace Binary64

/-! ### The largest narrow number -/

-- stated here for the powers of this library, which evaluate
theorem two_pow_pos (k : Nat) : 0 < 2 ^ k := Nat.two_pow_pos k

theorem two_pow_mul_two_pow {a b c d : Nat} (h : a + b = c + d) :
    2 ^ a * 2 ^ b = 2 ^ c * 2 ^ d := by
  rw [← Nat.pow_add, ← Nat.pow_add, h]

/-- The largest narrow number as a significand of 24 bits at any place. -/
theorem largestSingle_eq {a b : Nat} (h : a + b = 1178) :
    largestSingle = (2 ^ 24 - 1) * 2 ^ a * 2 ^ b := by
  -- the powers are too large to be evaluated
  obtain ⟨place, hplace, hunits⟩ : ∃ place, place = 1074 ∧ unitsPerOne = 2 ^ place :=
    ⟨1074, rfl, rfl⟩
  rw [largestSingle, hunits, Nat.mul_assoc, Nat.mul_assoc,
    two_pow_mul_two_pow (c := a) (d := b) (by omega)]

/-- Magnitudes up to that of the largest narrow number are inside the narrow range. -/
theorem units_ofMagnitude_le (negative : Bool) {n : Nat}
    (h : n ≤ 1149 * 2 ^ 52 + (2 ^ 24 - 1) * 2 ^ 29) :
    (ofMagnitude negative n).units ≤ largestSingle := by
  obtain ⟨top, htop⟩ : ∃ top, top = 1149 := ⟨1149, rfl⟩
  have hbits : (ofMagnitude negative n).bits.toNat = (if negative then 2 ^ 63 else 0) + n := by
    rw [ofMagnitude, Nat.min_eq_left (show n ≤ 2047 * 2 ^ 52 by omega), UInt64.toNat_ofNat_of_lt' ?_]
    rw [UInt64.size]
    split <;> omega
  have hfield : (ofMagnitude negative n).bits.toNat / 2 ^ 52 % 2 ^ 11 = n / 2 ^ 52 := by
    rw [hbits]
    split <;> omega
  have hfraction : (ofMagnitude negative n).bits.toNat % 2 ^ 52 = n % 2 ^ 52 := by
    rw [hbits]
    split <;> omega
  have hless : n % 2 ^ 52 < 2 ^ 52 := Nat.mod_lt n (by decide)
  rw [units, decode, hfield, hfraction, if_neg (by omega),
    largestSingle_eq (a := 29) (b := top) (by omega)]
  split
  · rename_i hsplit
    split at hsplit
    · cases hsplit
      exact Nat.mul_le_mul (by omega) (Nat.pow_le_pow_right (by decide) (Nat.zero_le _))
    · cases hsplit
      rcases Nat.lt_or_ge (n / 2 ^ 52) 1150 with hlower | hlast
      · calc (2 ^ 52 + n % 2 ^ 52) * 2 ^ (n / 2 ^ 52 - 1)
            ≤ 2 ^ 53 * 2 ^ (top - 1) :=
              Nat.mul_le_mul (by omega) (Nat.pow_le_pow_right (by decide) (by omega))
          _ = 2 ^ 52 * 2 ^ top := two_pow_mul_two_pow (by omega)
          _ ≤ (2 ^ 24 - 1) * 2 ^ 29 * 2 ^ top := Nat.mul_le_mul_right _ (by decide)
      · exact Nat.mul_le_mul (by omega) (Nat.pow_le_pow_right (by decide) (by omega))
  · exact Nat.zero_le _

/-- The number nearest to a quotient inside the narrow range is inside it. -/
theorem units_ofRatio_le (negative : Bool) {num den : Nat} (hden : 0 < den)
    (h : num * unitsPerOne ≤ largestSingle * den) :
    (ofRatio negative num den).units ≤ largestSingle := by
  obtain ⟨top, htop⟩ : ∃ top, top = 1149 := ⟨1149, rfl⟩
  rw [ofRatio]
  apply units_ofMagnitude_le
  rw [largestSingle_eq (a := 29) (b := top) (by omega)] at h
  rcases divHalfEven_log2 52 hden (by decide) h with ⟨hplace, hle⟩ | ⟨hlower, hle⟩
  · rw [hplace] at hle ⊢
    omega
  · omega

theorem fitsSingle_ofRatio (negative : Bool) {num den : Nat} (hden : 0 < den)
    (h : num * unitsPerOne ≤ largestSingle * den) : Kind.fitsSingle (ofRatio negative num den) :=
  decide_eq_true (units_ofRatio_le negative hden h)

/-- Rounded to a significand of 24 bits, a number inside the narrow range is inside it. -/
theorem divHalfEven_single {units step : Nat} (hstep : 0 < step)
    (h : units ≤ (2 ^ 24 - 1) * 2 ^ 253 * step) :
    let shift := (units / step).log2 - 23
    divHalfEven units (step * 2 ^ shift) * 2 ^ shift ≤ (2 ^ 24 - 1) * 2 ^ 253 := by
  intro shift
  have hrounded : shift = 253 ∧ divHalfEven units (step * 2 ^ shift) ≤ 2 ^ 24 - 1 ∨
      shift < 253 ∧ divHalfEven units (step * 2 ^ shift) ≤ 2 ^ 24 :=
    divHalfEven_log2 23 hstep (by decide) h
  rcases hrounded with ⟨hplace, hle⟩ | ⟨hlower, hle⟩
  · rw [hplace] at hle ⊢
    exact Nat.mul_le_mul_right _ hle
  · calc divHalfEven units (step * 2 ^ shift) * 2 ^ shift
        ≤ 2 ^ 24 * 2 ^ 252 :=
          Nat.mul_le_mul hle (Nat.pow_le_pow_right (by decide) (Nat.le_of_lt_succ hlower))
      _ = 2 ^ 23 * 2 ^ 253 := two_pow_mul_two_pow rfl
      _ ≤ (2 ^ 24 - 1) * 2 ^ 253 := Nat.mul_le_mul_right _ (by decide)

/-- A number inside the narrow range stays inside when it is narrowed. -/
theorem fitsSingle_toSingle {x : Binary64} (h : Kind.fitsSingle x) :
    Kind.fitsSingle x.toSingle := by
  have hunits : x.units ≤ largestSingle := of_decide_eq_true h
  rw [toSingle]
  split
  · rename_i negative significand exponent hdecode
    rw [units, hdecode] at hunits
    have hnarrow : significand * 2 ^ exponent ≤ (2 ^ 24 - 1) * 2 ^ 253 * 2 ^ 925 := by
      rwa [largestSingle_eq (a := 253) (b := 925) rfl] at hunits
    apply fitsSingle_ofRatio negative (two_pow_pos 149)
    calc _ ≤ (2 ^ 24 - 1) * 2 ^ 253 * unitsPerOne :=
          Nat.mul_le_mul_right _ (divHalfEven_single (two_pow_pos 925) hnarrow)
      _ = largestSingle * 2 ^ 149 := by
        rw [largestSingle, Nat.mul_right_comm _ unitsPerOne, Nat.mul_assoc _ (2 ^ 104),
          ← Nat.pow_add]
  · exact h

/-- Integers of 64 bits are inside the narrow range. -/
theorem fitsSingle_ofInt {i : Int} (h : i.natAbs ≤ 2 ^ 64) : Kind.fitsSingle (ofInt i) := by
  refine fitsSingle_ofRatio _ Nat.one_pos ?_
  rw [largestSingle, Nat.mul_one]
  exact Nat.mul_le_mul_right _ (Nat.le_trans h (by decide))

end Binary64

/-- What is converted into the narrow kind is inside its range. -/
theorem Kind.fitsSingle_of_coerce? {v : Value} {x : Binary64}
    (h : Kind.single.coerce? v = some (.float x)) : Kind.fitsSingle x := by
  cases v <;> simp only [coerce?, accepts, Bool.false_eq_true, if_false] at h <;> try cases h
  case float y =>
    obtain ⟨hfits, hvalue⟩ := Option.ite_none_right_eq_some.mp h
    cases hvalue
    exact hfits
  case int.refl i =>
    have hbounds := i.toInt_lt
    have hlow := i.le_toInt
    exact Binary64.fitsSingle_ofInt (by omega)
  case uint.refl n =>
    have hbound := n.toNat_lt
    exact Binary64.fitsSingle_ofInt (i := n.toNat) (by omega)

end EntityQuery
