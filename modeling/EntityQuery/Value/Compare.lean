import EntityQuery.Value.Basic

/-!
# Comparing values

* `Value.same` — equality of values, variant by variant.
* `Value.compare` — the order of two values of one family; numbers are one family.
* `Value.looseEq` — equality as predicates use it: null equals null only.
* `Numeric.compare` — numbers of all variants: exact, unless a binary number takes part.
-/

namespace EntityQuery

/-! ### Numbers -/

/-- A number of any variant. -/
inductive Numeric where
  | int (i : Int64)
  | uint (n : UInt64)
  | float (x : Binary64)
  | decimal (d : Decimal)

namespace Numeric

/-- A number as a binary one. -/
def toBinary64 : Numeric → Binary64
  | .int i => .ofInt i.toInt
  | .uint n => .ofNat n.toNat
  | .float x => x
  | .decimal d => d.toBinary64

/-- A number as a decimal one. -/
def toDecimal? : Numeric → Option Decimal
  | .int i => some (.ofInt64 i)
  | .uint n => some (.ofUInt64 n)
  | .float x => Decimal.ofBinary64? x
  | .decimal d => some d

/-- A signed word against an unsigned one: a negative number is less than all of them. -/
def compareWords (i : Int64) (n : UInt64) : Ordering :=
  if i.toInt < 0 then .lt else Ord.compare i.toInt.toNat n.toNat

/-- Words are compared as words. A binary number makes the other one binary too, and otherwise a
decimal number makes the other one decimal. -/
def compare : Numeric → Numeric → Option Ordering
  | .int a, .int b => some (Ord.compare a.toInt b.toInt)
  | .uint a, .uint b => some (Ord.compare a.toNat b.toNat)
  | .int a, .uint b => some (compareWords a b)
  | .uint a, .int b => some (compareWords b a).swap
  | .float x, b => x.compare b.toBinary64
  | a, .float y => a.toBinary64.compare y
  | a, b => do return (← a.toDecimal?).compare (← b.toDecimal?)

end Numeric

namespace Value

/-- The number a value is. -/
def numeric? : Value → Option Numeric
  | .int i => some (.int i)
  | .uint n => some (.uint n)
  | .float x => some (.float x)
  | .decimal d => some (.decimal d)
  | _ => none

/-! ### Equality -/

mutual

/-- Equality of values of one variant. Floating-point and decimal numbers are compared by what they
denote. -/
def same : Value → Value → Bool
  | .null, .null => true
  | .bool a, .bool b => a == b
  | .int a, .int b => a == b
  | .uint a, .uint b => a == b
  | .float a, .float b => a.numEq b
  | .decimal a, .decimal b => a.numEq b
  | .text a, .text b => a == b
  | .date a, .date b => a == b
  | .dateTime a, .dateTime b => a == b
  | .timestamp a, .timestamp b => a == b
  | .time a, .time b => a == b
  | .uuid a, .uuid b => a == b
  | .enum a, .enum b => a == b
  | .list as, .list bs => sameItems as bs
  | .object as, .object bs => sameFields as bs
  | _, _ => false

/-- Equality of lists, item by item. -/
def sameItems : List Value → List Value → Bool
  | [], [] => true
  | a :: as, b :: bs => same a b && sameItems as bs
  | _, _ => false

/-- Equality of records: the same names in the same order, with equal values. -/
def sameFields : List (String × Value) → List (String × Value) → Bool
  | [], [] => true
  | (n, a) :: as, (m, b) :: bs => n == m && (same a b && sameFields as bs)
  | _, _ => false

end

/-! ### Order -/

/-- The order of two values. Numbers compare with numbers, texts with texts and enumerations,
temporal values and identifiers within their variant; lists and objects are equal or
incomparable. -/
def compare (a b : Value) : Option Ordering :=
  match a.numeric?, b.numeric? with
  | some m, some n => m.compare n
  | _, _ =>
    match a.asText?, b.asText? with
    | some s, some t => some (Ord.compare s t)
    | _, _ =>
      match a, b with
      | .bool p, .bool q => some (Ord.compare p q)
      | .date c, .date d => some (c.compare d)
      | .dateTime x, .dateTime y => some (x.compare y)
      | .timestamp x, .timestamp y => some (x.compare y)
      | .time s, .time t => some (s.compare t)
      | .uuid u, .uuid v => some (u.compare v)
      | .list as, .list bs => if sameItems as bs then some .eq else none
      | .object as, .object bs => if sameFields as bs then some .eq else none
      | _, _ => none

/-- Equality as predicates use it: null equals null only, other values are equal when they compare
as equal. -/
def looseEq (a b : Value) : Bool :=
  match a, b with
  | .null, .null => true
  | _, _ => a.compare b == some .eq

/-- Nothing compares with null. -/
@[simp] theorem null_compare (v : Value) : Value.null.compare v = none := by
  cases v <;> rfl

/-- Null compares with nothing. -/
@[simp] theorem compare_null (v : Value) : v.compare .null = none := by
  cases v <;> rfl

/-- Null equals null only. -/
theorem looseEq_null_iff {v : Value} : v.looseEq .null = true ↔ v = .null := by
  cases v <;> simp [looseEq]

end Value

end EntityQuery
