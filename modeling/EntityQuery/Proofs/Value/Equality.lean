import EntityQuery.Proofs.Number.Rational

/-!
# Equality of values

Equality variant by variant is symmetric and transitive on all values. On a value it holds of itself
unless a floating-point number occurs in the value, since an undefined number is not equal to itself.

* `Value.isExact` — no floating-point number occurs in a value.
* `Value.same_comm`, `Value.same_trans`, `Value.same_self` — the laws, with those of lists and
  records beside them.
-/

namespace EntityQuery

/-! ### Numbers -/

/-- Places on the extended line compare as equal just in case they are the same. -/
theorem Binary64.Place.compare_eq_iff {p q : Place} : p.compare q = .eq ↔ p = q := by
  cases p <;> cases q <;> simp [Place.compare]

/-- Binary numbers are equal when they lie at the same place. -/
theorem Binary64.numEq_iff {x y : Binary64} :
    x.numEq y = true ↔ x.place?.isSome ∧ x.place? = y.place? := by
  rw [numEq, beq_iff_eq, compare]
  cases x.place? <;> cases y.place? <;> simp [Place.compare_eq_iff]

theorem Binary64.numEq_comm (x y : Binary64) : x.numEq y = y.numEq x := by
  rw [Bool.eq_iff_iff, numEq_iff, numEq_iff]
  constructor
  · rintro ⟨hx, heq⟩
    exact ⟨heq ▸ hx, heq.symm⟩
  · rintro ⟨hy, heq⟩
    exact ⟨heq ▸ hy, heq.symm⟩

theorem Binary64.numEq_trans {x y z : Binary64} (hxy : x.numEq y = true) (hyz : y.numEq z = true) :
    x.numEq z = true := by
  rw [numEq_iff] at *
  exact ⟨hxy.1, hxy.2.trans hyz.2⟩

/-- Decimal numbers are equal when they denote the same rational number. -/
theorem Decimal.numEq_iff {a b : Decimal} : a.numEq b = true ↔ a.rational = b.rational := by
  rw [numEq, beq_iff_eq, compare_eq_cmp, cmp_eq_eq_iff]

theorem Decimal.numEq_comm (a b : Decimal) : a.numEq b = b.numEq a := by
  rw [Bool.eq_iff_iff, numEq_iff, numEq_iff, eq_comm]

namespace Value

/-! ### Symmetry and transitivity -/

mutual

theorem same_comm (a b : Value) : same a b = same b a := by
  cases a <;> cases b <;> try rfl
  case float.float x y => exact Binary64.numEq_comm x y
  case decimal.decimal d e => exact Decimal.numEq_comm d e
  case list.list as bs => exact sameItems_comm as bs
  case object.object as bs => exact sameFields_comm as bs
  all_goals exact Bool.beq_comm

theorem sameItems_comm (as bs : List Value) : sameItems as bs = sameItems bs as := by
  cases as <;> cases bs <;> try rfl
  case cons.cons a as b bs => rw [sameItems, sameItems, same_comm a b, sameItems_comm as bs]

theorem sameFields_comm (as bs : List (String × Value)) : sameFields as bs = sameFields bs as := by
  cases as <;> cases bs <;> try rfl
  case cons.cons a as b bs =>
    rw [sameFields, sameFields, same_comm a.2 b.2, sameFields_comm as bs, Bool.beq_comm]

end

mutual

theorem same_trans {a b c : Value} (hab : same a b = true) (hbc : same b c = true) :
    same a c = true := by
  cases a <;> cases b <;> try cases hab
  all_goals cases c <;> try cases hbc
  case null.refl.null.refl => rfl
  case float.float.float => exact Binary64.numEq_trans hab hbc
  case decimal.decimal.decimal =>
    exact Decimal.numEq_iff.mpr ((Decimal.numEq_iff.mp hab).trans (Decimal.numEq_iff.mp hbc))
  case list.list.list => exact sameItems_trans hab hbc
  case object.object.object => exact sameFields_trans hab hbc
  all_goals exact beq_iff_eq.mpr ((beq_iff_eq.mp hab).trans (beq_iff_eq.mp hbc))
termination_by structural a

theorem sameItems_trans {as bs cs : List Value} (hab : sameItems as bs = true)
    (hbc : sameItems bs cs = true) : sameItems as cs = true := by
  cases as <;> cases bs <;> try cases hab
  all_goals cases cs <;> try cases hbc
  case nil.refl.nil.refl => rfl
  case cons.cons.cons a as b bs c cs =>
    rw [sameItems, Bool.and_eq_true] at *
    exact ⟨same_trans hab.1 hbc.1, sameItems_trans hab.2 hbc.2⟩
termination_by structural as

theorem sameFields_trans {as bs cs : List (String × Value)} (hab : sameFields as bs = true)
    (hbc : sameFields bs cs = true) : sameFields as cs = true := by
  cases as <;> cases bs <;> try cases hab
  all_goals cases cs <;> try cases hbc
  case nil.refl.nil.refl => rfl
  case cons.cons.cons a as b bs c cs =>
    rw [sameFields, Bool.and_eq_true, Bool.and_eq_true] at *
    exact ⟨beq_iff_eq.mpr ((beq_iff_eq.mp hab.1).trans (beq_iff_eq.mp hbc.1)),
      same_trans hab.2.1 hbc.2.1, sameFields_trans hab.2.2 hbc.2.2⟩
termination_by structural as

end

/-! ### Reflexivity -/

mutual

/-- Whether no floating-point number occurs in a value. -/
def isExact : Value → Bool
  | .float _ => false
  | .list items => exactItems items
  | .object fields => exactFields fields
  | _ => true

/-- Whether no floating-point number occurs in a list. -/
def exactItems : List Value → Bool
  | [] => true
  | v :: items => isExact v && exactItems items

/-- Whether no floating-point number occurs in a record. -/
def exactFields : List (String × Value) → Bool
  | [] => true
  | (_, v) :: fields => isExact v && exactFields fields

end

mutual

theorem same_self {a : Value} (h : isExact a = true) : same a a = true := by
  cases a
  case null => rfl
  case float => cases h
  case decimal => exact Decimal.numEq_iff.mpr rfl
  case list => exact sameItems_self h
  case object => exact sameFields_self h
  all_goals exact beq_iff_eq.mpr rfl
termination_by structural a

theorem sameItems_self {as : List Value} (h : exactItems as = true) : sameItems as as = true := by
  cases as with
  | nil => rfl
  | cons a as =>
    rw [exactItems, Bool.and_eq_true] at h
    rw [sameItems, same_self h.1, sameItems_self h.2]
    rfl
termination_by structural as

theorem sameFields_self {as : List (String × Value)} (h : exactFields as = true) :
    sameFields as as = true := by
  cases as with
  | nil => rfl
  | cons a as =>
    rw [exactFields, Bool.and_eq_true] at h
    rw [sameFields, same_self h.1, sameFields_self h.2, Bool.and_true, Bool.and_true]
    exact beq_iff_eq.mpr rfl
termination_by structural as

end

end Value

end EntityQuery
