import EntityQuery.Proofs.Value.Comparand
import Mathlib.Order.Std
import Mathlib.Tactic.NormNum.Ineq

/-!
# The order of exact values

On values in which no floating-point number occurs, comparison is as good as an order: loose equality
is an equivalence, numbers of all variants are ordered as the rational numbers they denote, and less
goes together with less and with equal.

* `Std.TransCmp` for dates, times and identifiers — their orders are transitive.
* `Value.Exact`, `Value.rational?` — exact values, and the rational numbers that numbers denote.
* `Comparand.compare_self`, `Comparand.compare_then` — the laws for what counts of exact values.
* `Value.exact_order` — the laws for exact values.
-/

namespace EntityQuery

/-! ### Transitive orders -/

instance : Std.TransCmp Date.compare :=
  inferInstanceAs (Std.TransCmp (compareLex (compareOn Date.year)
    (compareLex (compareOn Date.month) (compareOn Date.day))))

instance : Std.TransCmp TimeOfDay.compare :=
  inferInstanceAs (Std.TransCmp (compareLex (compareOn TimeOfDay.hour)
    (compareLex (compareOn TimeOfDay.minute)
      (compareLex (compareOn TimeOfDay.second) (compareOn TimeOfDay.nano)))))

instance : Std.TransCmp fun x y : DateTime => x.date.compare y.date where
  eq_swap := (Date.compare_swap _ _).symm
  isLE_trans := (inferInstance : Std.TransCmp Date.compare).isLE_trans

instance : Std.TransCmp fun x y : DateTime => x.time.compare y.time where
  eq_swap := (TimeOfDay.compare_swap _ _).symm
  isLE_trans := (inferInstance : Std.TransCmp TimeOfDay.compare).isLE_trans

instance : Std.TransCmp DateTime.compare :=
  inferInstanceAs (Std.TransCmp (compareLex (fun x y : DateTime => x.date.compare y.date)
    fun x y : DateTime => x.time.compare y.time))

instance : Std.TransCmp Uuid.compare :=
  inferInstanceAs (Std.TransCmp (compareOn fun u : Uuid => u.value.toNat))

/-- In a transitive order, steps that do not lead down combine. -/
theorem compare_then_of_isLE {α : Type} {cmp : α → α → Ordering} [Std.TransCmp cmp] {a b c : α}
    (hab : (cmp a b).isLE = true) (hbc : (cmp b c).isLE = true) :
    cmp a c = (cmp a b).then (cmp b c) := by
  cases h : cmp a b with
  | lt => exact Std.TransCmp.lt_of_lt_of_isLE h hbc
  | eq => exact Std.TransCmp.congr_left h
  | gt =>
    rw [h] at hab
    cases hab

/-! ### What counts of exact values -/

namespace Comparand

/-- Whether no floating-point number occurs in what is compared. -/
def isExact : Comparand → Bool
  | .number n => n.rational?.isSome
  | .list items => Value.exactItems items
  | .object fields => Value.exactFields fields
  | _ => true

/-- What counts of an exact value compares with itself as equal. -/
theorem compare_self {x : Comparand} (h : x.isExact = true) : x.compare x = some .eq := by
  cases x with
  | number n =>
    obtain ⟨q, hq⟩ := Option.isSome_iff_exists.mp h
    rw [compare, Numeric.compare_eq_cmp hq hq, cmp_self_eq_eq]
  | list items => exact if_pos (Value.sameItems_self h)
  | object fields => exact if_pos (Value.sameFields_self h)
  | _ => exact congrArg some Std.ReflCmp.compare_self

/-- Among exact values, steps that do not lead down combine. -/
theorem compare_then {x y z : Comparand} {o o' : Ordering} (hx : x.isExact = true)
    (hy : y.isExact = true) (hz : z.isExact = true) (hxy : x.compare y = some o)
    (hyz : y.compare z = some o') (ho : o.isLE = true) (ho' : o'.isLE = true) :
    x.compare z = some (o.then o') := by
  cases x <;> cases y <;> try cases hxy
  all_goals cases z <;> try cases hyz
  case number.number.number l m n =>
    obtain ⟨p, hp⟩ := Option.isSome_iff_exists.mp hx
    obtain ⟨q, hq⟩ := Option.isSome_iff_exists.mp hy
    obtain ⟨r, hr⟩ := Option.isSome_iff_exists.mp hz
    rw [compare, Numeric.compare_eq_cmp hp hq, cmp_eq_compare] at hxy
    rw [compare, Numeric.compare_eq_cmp hq hr, cmp_eq_compare] at hyz
    cases hxy
    cases hyz
    rw [compare, Numeric.compare_eq_cmp hp hr, cmp_eq_compare]
    exact congrArg some (compare_then_of_isLE ho ho')
  case list.list.list as bs cs =>
    obtain ⟨hab, ⟨⟩⟩ := Option.ite_none_right_eq_some.mp hxy
    obtain ⟨hbc, ⟨⟩⟩ := Option.ite_none_right_eq_some.mp hyz
    exact if_pos (Value.sameItems_trans hab hbc)
  case object.object.object as bs cs =>
    obtain ⟨hab, ⟨⟩⟩ := Option.ite_none_right_eq_some.mp hxy
    obtain ⟨hbc, ⟨⟩⟩ := Option.ite_none_right_eq_some.mp hyz
    exact if_pos (Value.sameFields_trans hab hbc)
  -- the other families have one transitive order each
  all_goals exact congrArg some (compare_then_of_isLE ho ho')

end Comparand

/-! ### Exact values -/

namespace Value

/-- The rational number that a value denotes, if it is an exact number. -/
def rational? (v : Value) : Option ℚ := v.numeric?.bind Numeric.rational?

/-- The values in which no floating-point number occurs. -/
abbrev Exact := { v : Value // v.isExact = true }

/-- Exact numbers compare as the rational numbers they denote. -/
theorem compare_eq_cmp {a b : Value} {p q : ℚ} (ha : a.rational? = some p)
    (hb : b.rational? = some q) : a.compare b = some (cmp p q) := by
  obtain ⟨m, hm, hp⟩ := Option.bind_eq_some_iff.mp ha
  obtain ⟨n, hn, hq⟩ := Option.bind_eq_some_iff.mp hb
  rw [compare_of_numeric? hm hn, Numeric.compare_eq_cmp hp hq]

/-- What counts of an exact value is exact. -/
theorem isExact_of_comparand? {a : Value} {x : Comparand} (h : a.isExact = true)
    (hx : a.comparand? = some x) : x.isExact = true := by
  cases a <;> cases hx <;> first | rfl | exact h

/-- Values that compare have something that counts. -/
theorem comparands_of_compare {a b : Value} {o : Ordering} (h : a.compare b = some o) :
    ∃ x y, a.comparand? = some x ∧ b.comparand? = some y ∧ x.compare y = some o := by
  rw [compare_eq_bind] at h
  obtain ⟨x, hx, h⟩ := Option.bind_eq_some_iff.mp h
  obtain ⟨y, hy, h⟩ := Option.bind_eq_some_iff.mp h
  exact ⟨x, y, hx, hy, h⟩

/-- Exact values compare with themselves as equal, except null. -/
theorem compare_self {a : Value} (h : a.isExact = true) (hnull : a ≠ .null) :
    a.compare a = some .eq := by
  obtain ⟨x, hx⟩ : ∃ x, a.comparand? = some x := by
    cases a with
    | null => exact absurd rfl hnull
    | _ => exact ⟨_, rfl⟩
  rw [compare_eq_bind, hx]
  exact Comparand.compare_self (isExact_of_comparand? h hx)

/-- Among exact values, steps that do not lead down combine. -/
theorem compare_then {a b c : Value} {o o' : Ordering} (ha : a.isExact = true)
    (hb : b.isExact = true) (hc : c.isExact = true) (hab : a.compare b = some o)
    (hbc : b.compare c = some o') (ho : o.isLE = true) (ho' : o'.isLE = true) :
    a.compare c = some (o.then o') := by
  obtain ⟨x, y, hx, hy, hxy⟩ := comparands_of_compare hab
  obtain ⟨y', z, hy', hz, hyz⟩ := comparands_of_compare hbc
  cases hy.symm.trans hy'
  rw [compare_eq_bind, hx, hz]
  exact Comparand.compare_then (isExact_of_comparand? ha hx) (isExact_of_comparand? hb hy)
    (isExact_of_comparand? hc hz) hxy hyz ho ho'

/-- Loosely equal values can replace the lesser side of a comparison. -/
theorem compare_congr_left {a a' b : Value} (ha : a.isExact = true) (ha' : a'.isExact = true)
    (hb : b.isExact = true) (h : a'.looseEq a = true) (hab : a.compare b = some .lt) :
    a'.compare b = some .lt := by
  obtain h | ⟨-, rfl⟩ := looseEq_iff.mp h
  · exact compare_then ha' ha hb h hab rfl rfl
  · rw [null_compare] at hab
    cases hab

/-- Loosely equal values can replace the greater side of a comparison. -/
theorem compare_congr_right {a b b' : Value} (ha : a.isExact = true) (hb : b.isExact = true)
    (hb' : b'.isExact = true) (h : b.looseEq b' = true) (hab : a.compare b = some .lt) :
    a.compare b' = some .lt := by
  obtain h | ⟨rfl, -⟩ := looseEq_iff.mp h
  · exact compare_then ha hb hb' hab h rfl rfl
  · rw [compare_null] at hab
    cases hab

/-- Loose equality of exact values is an equivalence. -/
theorem looseEq_equivalence : Equivalence fun a b : Exact => a.1.looseEq b.1 = true where
  refl a := by
    rw [looseEq_iff]
    by_cases hnull : a.1 = .null
    · exact Or.inr ⟨hnull, hnull⟩
    · exact Or.inl (compare_self a.2 hnull)
  symm h := (looseEq_comm _ _).trans h
  trans {a b c} hab hbc := by
    rw [looseEq_iff] at *
    obtain hab | ⟨ha, hb⟩ := hab
    · obtain hbc | ⟨hb, -⟩ := hbc
      · exact Or.inl (compare_then a.2 b.2 c.2 hab hbc rfl rfl)
      · rw [hb, compare_null] at hab
        cases hab
    · obtain hbc | ⟨-, hc⟩ := hbc
      · rw [hb, null_compare] at hbc
        cases hbc
      · exact Or.inr ⟨ha, hc⟩

/-- Exact numbers of all variants are ordered as the rational numbers they denote. On all exact values
loose equality is an equivalence, which is to compare as equal except for null, and less is
transitive and does not tell loosely equal values apart. -/
theorem exact_order :
    (∀ (a b : Value) (p q : ℚ), a.rational? = some p → b.rational? = some q →
      a.compare b = some (cmp p q)) ∧
    (Equivalence fun a b : Exact => a.1.looseEq b.1 = true) ∧
    (∀ a b : Exact, a.1.compare b.1 = some .eq ↔
      a.1 ≠ .null ∧ b.1 ≠ .null ∧ a.1.looseEq b.1 = true) ∧
    (∀ a b c : Exact, a.1.compare b.1 = some .lt → b.1.compare c.1 = some .lt →
      a.1.compare c.1 = some .lt) ∧
    ∀ a a' b b' : Exact, a.1.looseEq a'.1 = true → b.1.looseEq b'.1 = true →
      (a.1.compare b.1 = some .lt ↔ a'.1.compare b'.1 = some .lt) := by
  have hreplace (a a' b b' : Exact) (ha : a.1.looseEq a'.1 = true) (hb : b.1.looseEq b'.1 = true)
      (hab : a.1.compare b.1 = some .lt) : a'.1.compare b'.1 = some .lt :=
    compare_congr_right a'.2 b.2 b'.2 hb
      (compare_congr_left a.2 a'.2 b.2 ((looseEq_comm _ _).trans ha) hab)
  refine ⟨fun a b p q => compare_eq_cmp, looseEq_equivalence, fun a b => ?_, fun a b c hab hbc => ?_,
    fun a a' b b' ha hb => ?_⟩
  · rw [looseEq_iff]
    constructor
    · intro h
      refine ⟨fun hnull => ?_, fun hnull => ?_, Or.inl h⟩
      · rw [hnull, null_compare] at h
        cases h
      · rw [hnull, compare_null] at h
        cases h
    · rintro ⟨ha, -, h | ⟨hnull, -⟩⟩
      · exact h
      · exact absurd hnull ha
  · exact compare_then a.2 b.2 c.2 hab hbc rfl rfl
  · exact ⟨hreplace a a' b b' ha hb,
      hreplace a' a b' b ((looseEq_comm _ _).trans ha) ((looseEq_comm _ _).trans hb)⟩

/-- A signed word, a decimal number and an unsigned word: -1 is less than -0.5, which is less than 0,
and so -1 is less than 0. -/
theorem exact_order_mixed :
    let half : Decimal := ⟨true, 5, 1, by decide, by decide⟩
    (Value.int (-1)).compare (.decimal half) = some .lt ∧
      (Value.decimal half).compare (.uint 0) = some .lt ∧
      (Value.int (-1)).compare (.uint 0) = some .lt := by
  intro half
  have hword : (Value.int (-1)).rational? = some (-1) := by
    refine congrArg some ?_
    rw [show (-1 : Int64).toInt = -1 from rfl]
    rfl
  have hhalf : (Value.decimal half).rational? = some (-1 / 2) := by
    refine congrArg some ?_
    norm_num [Decimal.rational, Decimal.num, half]
  have hzero : (Value.uint 0).rational? = some 0 := by
    exact congrArg some (by norm_num)
  obtain ⟨hnumbers, -, -, htrans, -⟩ := exact_order
  have hleft : (Value.int (-1)).compare (.decimal half) = some .lt := by
    rw [hnumbers _ _ _ _ hword hhalf, (cmp_eq_lt_iff _ _).mpr (by norm_num)]
  have hright : (Value.decimal half).compare (.uint 0) = some .lt := by
    rw [hnumbers _ _ _ _ hhalf hzero, (cmp_eq_lt_iff _ _).mpr (by norm_num)]
  exact ⟨hleft, hright, htrans ⟨_, rfl⟩ ⟨_, rfl⟩ ⟨_, rfl⟩ hleft hright⟩

end Value

end EntityQuery
