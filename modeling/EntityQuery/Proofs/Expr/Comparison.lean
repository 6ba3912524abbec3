import EntityQuery.Expr.Basic
import EntityQuery.Proofs.Value.Comparand

/-!
# Comparisons of expressions

The six comparisons agree with one another on all values, undefined numbers, lists, records and null
included. Only equality holds of null, and only of null with null.

* `Comparison.holds_lessThan` and the lemmas beside it — each comparison as a statement on the order
  of two values.
* `Value.compare_eq_some_iff_swap` — the order of two values, read from the other side.
* `Expr.Consistent` — the comparisons of two expressions agree with one another on a record.
* `Expr.consistent` — they always do.
-/

namespace EntityQuery

namespace Value

variable {a b : Value}

/-- The order of two values, read from the other side. -/
theorem compare_eq_some_iff_swap (o : Ordering) :
    b.compare a = some o ↔ a.compare b = some o.swap := by
  rw [← compare_swap a b, Option.map_eq_some_iff]
  constructor
  · rintro ⟨o', h, rfl⟩
    rw [h, Ordering.swap_swap]
  · intro h
    exact ⟨_, h, Ordering.swap_swap⟩

end Value

namespace Comparison

variable {a b : Value}

theorem holds_lessThan : lessThan.holds a b = true ↔ a.compare b = some .lt := beq_iff_eq

theorem holds_greaterThan : greaterThan.holds a b = true ↔ a.compare b = some .gt := beq_iff_eq

theorem holds_equal :
    equal.holds a b = true ↔ a.compare b = some .eq ∨ a = .null ∧ b = .null :=
  Value.looseEq_iff

theorem holds_lessThanOrEqual : lessThanOrEqual.holds a b = true ↔
    a.compare b = some .lt ∨ a.compare b = some .eq := by
  rw [holds]
  cases a.compare b with
  | none => simp
  | some o => cases o <;> simp

theorem holds_greaterThanOrEqual : greaterThanOrEqual.holds a b = true ↔
    a.compare b = some .gt ∨ a.compare b = some .eq := by
  rw [holds]
  cases a.compare b with
  | none => simp
  | some o => cases o <;> simp

/-- Values that are equal are neither less nor greater. -/
theorem compare_ne_of_holds_equal (h : equal.holds a b = true) {o : Ordering} (ho : o ≠ .eq) :
    a.compare b ≠ some o := by
  intro hcompare
  obtain heq | ⟨rfl, rfl⟩ := holds_equal.mp h
  · exact ho (Option.some.inj (hcompare.symm.trans heq))
  · rw [Value.null_compare] at hcompare
    cases hcompare

/-- To be less is to be greater, read from the other side. -/
theorem holds_lessThan_swap (a b : Value) : lessThan.holds a b = greaterThan.holds b a := by
  rw [Bool.eq_iff_iff, holds_lessThan, holds_greaterThan, Value.compare_eq_some_iff_swap (a := a)]
  rfl

theorem holds_lessThanOrEqual_swap (a b : Value) :
    lessThanOrEqual.holds a b = greaterThanOrEqual.holds b a := by
  rw [Bool.eq_iff_iff, holds_lessThanOrEqual, holds_greaterThanOrEqual,
    Value.compare_eq_some_iff_swap (a := a), Value.compare_eq_some_iff_swap (a := a)]
  rfl

/-- At most one of less, equal and greater holds of two values. -/
theorem exclusive (a b : Value) : [lessThan, equal, greaterThan].Pairwise fun c d =>
    ¬ (c.holds a b = true ∧ d.holds a b = true) := by
  have hlessEqual : ¬ (lessThan.holds a b = true ∧ equal.holds a b = true) := by
    rintro ⟨hless, hequal⟩
    exact compare_ne_of_holds_equal hequal (by decide) (holds_lessThan.mp hless)
  have hlessGreater : ¬ (lessThan.holds a b = true ∧ greaterThan.holds a b = true) := by
    rintro ⟨hless, hgreater⟩
    cases (holds_lessThan.mp hless).symm.trans (holds_greaterThan.mp hgreater)
  have hequalGreater : ¬ (equal.holds a b = true ∧ greaterThan.holds a b = true) := by
    rintro ⟨hequal, hgreater⟩
    exact compare_ne_of_holds_equal hequal (by decide) (holds_greaterThan.mp hgreater)
  exact .cons (List.forall_mem_cons.mpr ⟨hlessEqual, List.forall_mem_singleton.mpr hlessGreater⟩)
    (.cons (List.forall_mem_singleton.mpr hequalGreater) (List.pairwise_singleton _ _))

/-- Less or equal means less or equal, unless both values are null. -/
theorem holds_lessThanOrEqual_iff (h : ¬ (a = .null ∧ b = .null)) :
    lessThanOrEqual.holds a b = true ↔ lessThan.holds a b = true ∨ equal.holds a b = true := by
  rw [holds_lessThanOrEqual, holds_lessThan, holds_equal, or_iff_left h]

/-- The comparisons that look at the order. -/
def isOrdering : Comparison → Bool
  | .equal | .notEqual => false
  | _ => true

/-- No order holds of values that do not compare. -/
theorem not_holds_of_compare_eq_none {c : Comparison} (hc : c.isOrdering = true)
    (h : a.compare b = none) : c.holds a b = false := by
  cases c with
  | equal => cases hc
  | notEqual => cases hc
  | _ => rw [holds, h]; rfl

end Comparison

namespace Expr

/-- The comparisons of two expressions agree with one another on a record. -/
structure Consistent (l r : Expr) (x : Record) : Prop where
  less_iff : (compare .lessThan l r).test x = (compare .greaterThan r l).test x
  lessOrEqual_iff :
    (compare .lessThanOrEqual l r).test x = (compare .greaterThanOrEqual r l).test x
  exclusive : [.lessThan, .equal, .greaterThan].Pairwise fun c d =>
    ¬ ((compare c l r).test x = true ∧ (compare d l r).test x = true)
  split : ¬ (l.eval x = .null ∧ r.eval x = .null) →
    ((compare .lessThanOrEqual l r).test x = true ↔
      (compare .lessThan l r).test x = true ∨ (compare .equal l r).test x = true)
  notEqual_iff : (compare .notEqual l r).test x = !(compare .equal l r).test x
  unordered : l.eval x = .null ∨ r.eval x = .null ∨ (l.eval x).family? ≠ (r.eval x).family? →
    ∀ c : Comparison, c.isOrdering = true → (compare c l r).test x = false

/-- Swapping two values reverses their order and does not matter to loose equality, and all
comparisons of expressions agree with one another on every record. -/
theorem consistent :
    (∀ a b : Value, b.compare a = (a.compare b).map Ordering.swap ∧ b.looseEq a = a.looseEq b) ∧
      ∀ (l r : Expr) (x : Record), Consistent l r x := by
  refine ⟨fun a b => ⟨(Value.compare_swap a b).symm, Value.looseEq_comm b a⟩, fun l r x => ?_⟩
  constructor
  case less_iff =>
    rw [test_compare, test_compare, Comparison.holds_lessThan_swap]
  case lessOrEqual_iff =>
    rw [test_compare, test_compare, Comparison.holds_lessThanOrEqual_swap]
  case exclusive =>
    simp only [test_compare]
    exact Comparison.exclusive _ _
  case split =>
    intro hnull
    rw [test_compare, test_compare, test_compare, Comparison.holds_lessThanOrEqual_iff hnull]
  case notEqual_iff =>
    rw [test_compare, test_compare]
    rfl
  case unordered =>
    intro h c hc
    rw [test_compare]
    refine Comparison.not_holds_of_compare_eq_none hc ?_
    obtain h | h | h := h
    · rw [h, Value.null_compare]
    · rw [h, Value.compare_null]
    · exact Value.compare_of_family?_ne h

end Expr

end EntityQuery
