import EntityQuery.Number.Digits
import EntityQuery.Number.Rounding

/-!
# Binary floating-point numbers of 64 bits

A `Binary64` is its bit pattern; every finite one is a whole number of *units* of 2^-1074, so
comparison and arithmetic are exact integer arithmetic followed by one rounding.

* `Binary64.decode` — the class of a pattern: not a number, an infinity, or a signed significand
  with its exponent.
* `Binary64.compare` — the partial order of the numbers: an undefined number is comparable with
  nothing, both zeros are equal.
* `Binary64.ofRatio` — the nearest number to a quotient, ties to even, overflow to infinity.
* `Binary64.toSingle` — the nearest number with a 24-bit significand.
-/

namespace EntityQuery

/-- A floating-point number of 64 bits, given by its bit pattern. -/
structure Binary64 where
  bits : UInt64
  deriving DecidableEq, Repr, Inhabited

namespace Binary64

/-- What a bit pattern stands for. A finite number is `significand * 2 ^ exponent` units of
2^-1074. -/
inductive Class where
  | undefined
  | infinite (negative : Bool)
  | finite (negative : Bool) (significand exponent : Nat)
  deriving DecidableEq, Repr

/-- Units per one: 2^1074. -/
def unitsPerOne : Nat := 2 ^ 1074

/-- Read the sign, the exponent field and the fraction of a pattern. -/
def decode (x : Binary64) : Class :=
  let n := x.bits.toNat
  let negative := decide (2 ^ 63 ≤ n)
  let field := n / 2 ^ 52 % 2 ^ 11
  let fraction := n % 2 ^ 52
  if field = 2047 then
    if fraction = 0 then .infinite negative else .undefined
  else if field = 0 then .finite negative fraction 0
  else .finite negative (2 ^ 52 + fraction) (field - 1)

/-- The pattern with the given sign whose lower 63 bits are `magnitude`; a magnitude beyond the
largest finite number gives infinity. -/
def ofMagnitude (negative : Bool) (magnitude : Nat) : Binary64 :=
  ⟨UInt64.ofNat ((if negative then 2 ^ 63 else 0) + min magnitude (2047 * 2 ^ 52))⟩

/-- The number nearest to `num / den`, ties to the even significand.

The significand gets 53 bits, or fewer when the exponent cannot go lower. Adding the exponent field
to the rounded significand also handles a significand that rounds up to 2^53. -/
def ofRatio (negative : Bool) (num den : Nat) : Binary64 :=
  let units := num * unitsPerOne
  let exponent := (units / den).log2 - 52
  ofMagnitude negative (exponent * 2 ^ 52 + divHalfEven units (den * 2 ^ exponent))

/-- The number nearest to a natural number. -/
def ofNat (n : Nat) : Binary64 := ofRatio false n 1

/-- The number nearest to an integer. -/
def ofInt (i : Int) : Binary64 := ofRatio (decide (i < 0)) i.natAbs 1

/-- The pattern used for an undefined number. -/
def nan : Binary64 := ⟨0x7ff8000000000000⟩

/-- Positive zero. -/
def zero : Binary64 := ⟨0⟩

/-- The infinity of the given sign. -/
def infinity (negative : Bool) : Binary64 := ofMagnitude negative (2047 * 2 ^ 52)

/-- Neither undefined nor infinite. -/
def isFinite (x : Binary64) : Bool :=
  match x.decode with
  | .finite .. => true
  | _ => false

/-- Undefined. -/
def isNaN (x : Binary64) : Bool :=
  match x.decode with
  | .undefined => true
  | _ => false

/-- The sign bit. -/
def isNegative (x : Binary64) : Bool := decide (2 ^ 63 ≤ x.bits.toNat)

/-- Flip the sign bit. -/
def neg (x : Binary64) : Binary64 := ⟨x.bits ^^^ 0x8000000000000000⟩

/-- The absolute value of a finite number, in units. -/
def units (x : Binary64) : Nat :=
  match x.decode with
  | .finite _ significand exponent => significand * 2 ^ exponent
  | _ => 0

/-- A number on the extended line: an integer number of units, or an infinity. -/
inductive Place where
  | below
  | at (units : Int)
  | above
  deriving DecidableEq, Repr

/-- The order of places on the line. -/
def Place.compare : Place → Place → Ordering
  | .below, .below => .eq
  | .below, _ => .lt
  | _, .below => .gt
  | .above, .above => .eq
  | .above, _ => .gt
  | _, .above => .lt
  | .at a, .at b => Ord.compare a b

/-- Where a number lies on the extended line; an undefined number lies nowhere. -/
def place? (x : Binary64) : Option Place :=
  match x.decode with
  | .undefined => none
  | .infinite negative => some (if negative then .below else .above)
  | .finite negative significand exponent =>
    let magnitude : Int := (significand * 2 ^ exponent : Nat)
    some (.at (if negative then -magnitude else magnitude))

/-- Order two numbers; nothing is comparable with an undefined number. -/
def compare (x y : Binary64) : Option Ordering :=
  match x.place?, y.place? with
  | some p, some q => some (p.compare q)
  | _, _ => none

/-- Numerical equality: both zeros are equal and an undefined number equals nothing. -/
def numEq (x y : Binary64) : Bool := x.compare y == some .eq

/-- Exact product of two magnitudes, rounded once. -/
def mulMagnitude (x y : Binary64) : Binary64 :=
  ofRatio false (x.units * y.units) (unitsPerOne * unitsPerOne)

/-- Exact sum of two magnitudes, rounded once. -/
def addMagnitude (x y : Binary64) : Binary64 :=
  ofRatio false (x.units + y.units) unitsPerOne

/-- Exact quotient of two magnitudes, rounded once. -/
def divMagnitude (x y : Binary64) : Binary64 :=
  ofRatio false x.units y.units

/-- The whole number nearest to a magnitude, a half going up. -/
def roundMagnitude (x : Binary64) : Nat := divHalfUp x.units unitsPerOne

/-- Units of the largest finite number with a 24-bit significand: (2^24 - 1) * 2^104. -/
def largestSingle : Nat := (2 ^ 24 - 1) * 2 ^ 104 * unitsPerOne

/-- The nearest number with a 24-bit significand and an exponent of at least -149, ties to even. -/
def toSingle (x : Binary64) : Binary64 :=
  match x.decode with
  | .finite negative significand exponent =>
    let units := significand * 2 ^ exponent
    -- one step of the narrow format is 2^-149, that is 2^925 units
    let shift := (units / 2 ^ 925).log2 - 23
    ofRatio negative (divHalfEven units (2 ^ 925 * 2 ^ shift) * 2 ^ shift) (2 ^ 149)
  | _ => x

/-- The order of places reverses when the arguments are swapped. -/
theorem Place.compare_swap (p q : Place) : (p.compare q).swap = q.compare p := by
  cases p <;> cases q <;> try rfl
  simp only [Place.compare]
  exact Std.OrientedOrd.eq_swap.symm

/-- Swapping the arguments of a comparison reverses the answer. -/
theorem compare_swap (x y : Binary64) : (x.compare y).map Ordering.swap = y.compare x := by
  unfold compare
  cases x.place? <;> cases y.place? <;> simp [Place.compare_swap]

end Binary64

end EntityQuery
