import EntityQuery.Proofs.Value.Equality

/-!
# What counts in comparisons

Values are compared within families. A family may have several variants, whose values are brought to
one form: numbers of all variants are numbers, texts and names of enumerations are texts. Null
belongs to no family.

* `Family`, `Value.family?` — the families of values.
* `Comparand`, `Value.comparand?` — what counts of a value when it is compared.
* `Value.compare_eq_bind` — values are compared as what counts of them.
* `Value.compare_swap`, `Value.looseEq_comm` — swapping the arguments.
* `Value.compare_of_family?_ne` — values of two families do not compare.
-/

namespace EntityQuery

/-! ### Families -/

/-- The families within which values compare. -/
inductive Family where
  | number
  | text
  | truth
  | date
  | dateTime
  | timestamp
  | time
  | uuid
  | list
  | object
  deriving DecidableEq, Repr

/-- The family of a value. -/
def Value.family? : Value → Option Family
  | .null => none
  | .bool _ => some .truth
  | .int _ | .uint _ | .float _ | .decimal _ => some .number
  | .text _ | .enum _ => some .text
  | .date _ => some .date
  | .dateTime _ => some .dateTime
  | .timestamp _ => some .timestamp
  | .time _ => some .time
  | .uuid _ => some .uuid
  | .list _ => some .list
  | .object _ => some .object

/-- What counts of a value when it is compared. -/
inductive Comparand where
  | number (n : Numeric)
  | text (s : String)
  | truth (b : Bool)
  | date (d : Date)
  | dateTime (x : DateTime)
  | timestamp (x : DateTime)
  | time (t : TimeOfDay)
  | uuid (u : Uuid)
  | list (items : List Value)
  | object (fields : List (String × Value))

/-- What counts of a value; null does not compare. -/
def Value.comparand? : Value → Option Comparand
  | .null => none
  | .bool b => some (.truth b)
  | .int i => some (.number (.int i))
  | .uint n => some (.number (.uint n))
  | .float x => some (.number (.float x))
  | .decimal d => some (.number (.decimal d))
  | .text s | .enum s => some (.text s)
  | .date d => some (.date d)
  | .dateTime x => some (.dateTime x)
  | .timestamp x => some (.timestamp x)
  | .time t => some (.time t)
  | .uuid u => some (.uuid u)
  | .list items => some (.list items)
  | .object fields => some (.object fields)

namespace Comparand

/-- The family of a comparand. -/
def family : Comparand → Family
  | .number _ => .number
  | .text _ => .text
  | .truth _ => .truth
  | .date _ => .date
  | .dateTime _ => .dateTime
  | .timestamp _ => .timestamp
  | .time _ => .time
  | .uuid _ => .uuid
  | .list _ => .list
  | .object _ => .object

/-- The order of two comparands of one family. -/
def compare : Comparand → Comparand → Option Ordering
  | .number m, .number n => m.compare n
  | .text s, .text t => some (Ord.compare s t)
  | .truth p, .truth q => some (Ord.compare p q)
  | .date c, .date d => some (c.compare d)
  | .dateTime x, .dateTime y => some (x.compare y)
  | .timestamp x, .timestamp y => some (x.compare y)
  | .time s, .time t => some (s.compare t)
  | .uuid u, .uuid v => some (u.compare v)
  | .list as, .list bs => if Value.sameItems as bs then some .eq else none
  | .object as, .object bs => if Value.sameFields as bs then some .eq else none
  | _, _ => none

/-- Comparands of two families do not compare. -/
theorem compare_of_family_ne {x y : Comparand} (h : x.family ≠ y.family) : x.compare y = none := by
  cases x <;> cases y <;> first | rfl | exact absurd rfl h

end Comparand

/-! ### Swapping the arguments -/

/-- Swapping two numbers reverses their order. -/
theorem Numeric.compare_swap (m n : Numeric) : (m.compare n).map Ordering.swap = n.compare m := by
  cases m <;> cases n
  case int.int a b => exact congrArg some Std.OrientedOrd.eq_swap.symm
  case uint.uint a b => exact congrArg some Std.OrientedOrd.eq_swap.symm
  case int.uint a b => rfl
  case uint.int a b => exact congrArg some Ordering.swap_swap
  case int.decimal | uint.decimal | decimal.int | decimal.uint | decimal.decimal =>
    exact congrArg some (Decimal.compare_swap _ _)
  all_goals exact Binary64.compare_swap _ _

/-- Swapping two comparands reverses their order. -/
theorem Comparand.compare_swap (x y : Comparand) :
    (x.compare y).map Ordering.swap = y.compare x := by
  cases x <;> cases y <;> try rfl
  case number.number m n => exact m.compare_swap n
  case text.text s t => exact congrArg some Std.OrientedOrd.eq_swap.symm
  case truth.truth p q => exact congrArg some Std.OrientedOrd.eq_swap.symm
  case date.date c d => exact congrArg some (c.compare_swap d)
  case dateTime.dateTime x y => exact congrArg some (x.compare_swap y)
  case timestamp.timestamp x y => exact congrArg some (x.compare_swap y)
  case time.time s t => exact congrArg some (s.compare_swap t)
  case uuid.uuid u v => exact congrArg some (u.compare_swap v)
  case list.list as bs =>
    rw [compare, compare, Value.sameItems_comm as bs]
    split <;> rfl
  case object.object as bs =>
    rw [compare, compare, Value.sameFields_comm as bs]
    split <;> rfl

namespace Value

/-- What counts of a number is the number. -/
theorem compare_of_numeric? {a b : Value} {m n : Numeric} (ha : a.numeric? = some m)
    (hb : b.numeric? = some n) : a.compare b = m.compare n := by
  unfold compare
  rw [ha, hb]

/-- Values are compared as what counts of them. -/
theorem compare_eq_bind (a b : Value) :
    a.compare b = a.comparand?.bind fun x => b.comparand?.bind x.compare := by
  cases a <;> cases b
  case int.int | int.uint | int.float | int.decimal | uint.int | uint.uint | uint.float |
      uint.decimal | float.int | float.uint | float.float | float.decimal | decimal.int |
      decimal.uint | decimal.float | decimal.decimal =>
    rw [comparand?, comparand?, Option.bind_some, Option.bind_some, Comparand.compare]
    exact compare_of_numeric? rfl rfl
  all_goals rfl

/-- The family of a value is that of what counts of it. -/
theorem family?_eq_map (a : Value) : a.family? = a.comparand?.map Comparand.family := by
  cases a <;> rfl

/-- Swapping two values reverses their order. -/
theorem compare_swap (a b : Value) : (a.compare b).map Ordering.swap = b.compare a := by
  rw [compare_eq_bind a b, compare_eq_bind b a]
  cases a.comparand? with
  | none => cases b.comparand? <;> rfl
  | some x =>
    cases b.comparand? with
    | none => rfl
    | some y => exact x.compare_swap y

/-- Loosely equal values compare as equal, or are both null. -/
theorem looseEq_iff {a b : Value} :
    a.looseEq b = true ↔ a.compare b = some .eq ∨ a = .null ∧ b = .null := by
  cases a <;> cases b <;> simp [looseEq]

/-- Loose equality does not depend on the order of the values. -/
theorem looseEq_comm (a b : Value) : a.looseEq b = b.looseEq a := by
  have hcompare : a.compare b = some .eq ↔ b.compare a = some .eq := by
    rw [← compare_swap a b]
    cases a.compare b with
    | none => rfl
    | some o => cases o <;> simp
  rw [Bool.eq_iff_iff, looseEq_iff, looseEq_iff, hcompare, and_comm]

/-- Values of two families do not compare. -/
theorem compare_of_family?_ne {a b : Value} (h : a.family? ≠ b.family?) : a.compare b = none := by
  rw [compare_eq_bind]
  rw [family?_eq_map, family?_eq_map] at h
  cases hx : a.comparand? with
  | none => rfl
  | some x =>
    cases hy : b.comparand? with
    | none => rfl
    | some y =>
      rw [hx, hy] at h
      exact Comparand.compare_of_family_ne fun hxy => h (congrArg some hxy)

end Value

end EntityQuery
