import EntityQuery.Value.Compare
import Mathlib.Data.Rat.Cast.Order
import Mathlib.Order.Compare

/-!
# Numbers as rational numbers

Words and decimal numbers denote rational numbers, and their comparison is the order of these, on
every way that two numbers of different variants meet.

* `Decimal.rational`, `Numeric.rational?` — the rational number that a number denotes. A binary
  number is left without one, since the others are rounded where they meet it.
* `Decimal.compare_eq_cmp`, `Numeric.compare_eq_cmp` — comparison is the order of what is denoted.
-/

namespace EntityQuery

/-- The rational number that a decimal number denotes. -/
def Decimal.rational (d : Decimal) : ℚ := d.num / (10 ^ d.scale : Nat)

/-- The order of decimal numbers is that of the rational numbers they denote. -/
theorem Decimal.compare_eq_cmp (a b : Decimal) : a.compare b = cmp a.rational b.rational := by
  have ha : (0 : ℚ) < (10 ^ a.scale : Nat) := Nat.cast_pos.mpr (Nat.pow_pos (by decide))
  have hb : (0 : ℚ) < (10 ^ b.scale : Nat) := Nat.cast_pos.mpr (Nat.pow_pos (by decide))
  have hleft : a.rational * ((10 ^ a.scale : Nat) * (10 ^ b.scale : Nat)) =
      ((a.num * (10 ^ b.scale : Nat) : Int) : ℚ) := by
    rw [rational, ← mul_assoc, div_mul_cancel₀ _ ha.ne', Int.cast_mul, Int.cast_natCast]
  have hright : b.rational * ((10 ^ a.scale : Nat) * (10 ^ b.scale : Nat)) =
      ((b.num * (10 ^ a.scale : Nat) : Int) : ℚ) := by
    rw [rational, mul_comm ((10 ^ a.scale : Nat) : ℚ), ← mul_assoc, div_mul_cancel₀ _ hb.ne',
      Int.cast_mul, Int.cast_natCast]
  rw [← cmp_mul_pos_right (mul_pos ha hb), hleft, hright, Int.cast_strictMono.cmp_map_eq,
    cmp_eq_compare]
  rfl

/-- A signed word denotes itself. -/
theorem Decimal.rational_ofInt64 (i : Int64) : (ofInt64 i).rational = i.toInt := by
  rw [rational, num_ofInt64]
  exact (congrArg _ (by norm_num [ofInt64])).trans (div_one _)

/-- A word denotes itself. -/
theorem Decimal.rational_ofUInt64 (n : UInt64) : (ofUInt64 n).rational = n.toNat := by
  rw [rational, num_ofUInt64, Int.cast_natCast]
  exact (congrArg _ (by norm_num [ofUInt64])).trans (div_one _)

namespace Numeric

/-- The rational number that an exact number denotes. -/
def rational? : Numeric → Option ℚ
  | .int i => some i.toInt
  | .uint n => some n.toNat
  | .float _ => none
  | .decimal d => some d.rational

/-- Signed words are less than unsigned ones as the integers they are. -/
theorem compareWords_eq_cmp (i : Int64) (n : UInt64) :
    compareWords i n = cmp (i.toInt : ℚ) n.toNat := by
  rw [← Int.cast_natCast, Int.cast_strictMono.cmp_map_eq, compareWords]
  by_cases h : i.toInt < 0
  · have hlt : i.toInt < (n.toNat : Int) := by omega
    rw [if_pos h, hlt.cmp_eq_lt]
  · have hi : ((i.toInt.toNat : Nat) : Int) = i.toInt := by omega
    rw [if_neg h, ← cmp_eq_compare, ← Nat.strictMono_cast.cmp_map_eq (β := Int), hi]

/-- An exact number is the decimal number that denotes the same. -/
theorem toDecimal?_of_rational? {m : Numeric} {p : ℚ} (h : m.rational? = some p) :
    ∃ d : Decimal, m.toDecimal? = some d ∧ d.rational = p := by
  cases m with
  | int i => exact ⟨_, rfl, (Decimal.rational_ofInt64 i).trans (Option.some.inj h)⟩
  | uint n => exact ⟨_, rfl, (Decimal.rational_ofUInt64 n).trans (Option.some.inj h)⟩
  | float x => cases h
  | decimal d => exact ⟨_, rfl, Option.some.inj h⟩

/-- The order of exact numbers of all variants is that of the rational numbers they denote. -/
theorem compare_eq_cmp {m n : Numeric} {p q : ℚ} (hm : m.rational? = some p)
    (hn : n.rational? = some q) : m.compare n = some (cmp p q) := by
  obtain ⟨d, hd, hp⟩ := toDecimal?_of_rational? hm
  obtain ⟨e, he, hq⟩ := toDecimal?_of_rational? hn
  -- where a decimal number takes part, both numbers become decimal
  have hdecimal : (do return (← m.toDecimal?).compare (← n.toDecimal?)) = some (cmp p q) := by
    rw [hd, he, ← hp, ← hq]
    exact congrArg some (d.compare_eq_cmp e)
  cases m <;> cases n
  case int.int a b =>
    cases hm
    cases hn
    rw [compare, Int.cast_strictMono.cmp_map_eq, cmp_eq_compare]
  case uint.uint a b =>
    cases hm
    cases hn
    rw [compare, Nat.strictMono_cast.cmp_map_eq, cmp_eq_compare]
  case int.uint a b =>
    cases hm
    cases hn
    rw [compare, compareWords_eq_cmp]
  case uint.int a b =>
    cases hm
    cases hn
    rw [compare, compareWords_eq_cmp, cmp_swap]
  case float.int | float.uint | float.float | float.decimal => cases hm
  case int.float | uint.float | decimal.float => cases hn
  all_goals exact hdecimal

end Numeric

end EntityQuery
