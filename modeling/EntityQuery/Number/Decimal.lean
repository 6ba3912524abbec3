import EntityQuery.Number.Binary64
import EntityQuery.Number.Digits

/-!
# Decimal numbers of 96 bits

A `Decimal` is a natural number below 2^96 with a sign and a scale of at most 28 places.

* `Decimal.num` and `Decimal.compare` — the rational number denoted, and exact comparison.
* `Decimal.text` — plain digits, exactly `scale` of them after the point.
* `Decimal.ofText?` — reading a number: places beyond the capacity are rounded half up.
* `Decimal.ofBinary64?` and `Decimal.toBinary64` — conversion from and to binary numbers.
-/

namespace EntityQuery

/-- A signed decimal number `mantissa / 10 ^ scale`. -/
structure Decimal where
  negative : Bool
  mantissa : Nat
  scale : Nat
  mantissa_lt : mantissa < 2 ^ 96
  scale_le : scale ≤ 28
  deriving DecidableEq

namespace Decimal

/-- A decimal number, if its mantissa and scale fit. -/
def of? (negative : Bool) (mantissa scale : Nat) : Option Decimal :=
  if h : mantissa < 2 ^ 96 ∧ scale ≤ 28 then some ⟨negative, mantissa, scale, h.1, h.2⟩ else none

/-- A decimal number as it is read: zero has no sign. -/
def ofRead? (negative : Bool) (mantissa scale : Nat) : Option Decimal :=
  of? (negative && mantissa != 0) mantissa scale

/-- Zero with no places. -/
def zero : Decimal := ⟨false, 0, 0, by decide, by decide⟩

instance : Inhabited Decimal := ⟨zero⟩

/-- The number `num / 10 ^ scale` denoted, by its numerator. -/
def num (d : Decimal) : Int := if d.negative then -(d.mantissa : Int) else d.mantissa

/-- Exact comparison of the numbers denoted. -/
def compare (a b : Decimal) : Ordering :=
  Ord.compare (a.num * (10 ^ b.scale : Nat)) (b.num * (10 ^ a.scale : Nat))

/-- Equality of the numbers denoted: trailing zeros and the sign of zero do not count. -/
def numEq (a b : Decimal) : Bool := a.compare b == .eq

/-- A word, as a decimal number with no places. -/
def ofUInt64 (n : UInt64) : Decimal :=
  ⟨false, n.toNat, 0, Nat.lt_trans n.toNat_lt (by decide), by decide⟩

/-- A signed word, as a decimal number with no places. -/
def ofInt64 (i : Int64) : Decimal :=
  ⟨decide (i.toInt < 0), i.toInt.natAbs, 0,
    by have := i.le_toInt; have := i.toInt_lt; omega, by decide⟩

/-- Plain digits, `scale` of them after the point. -/
def text (d : Decimal) : String :=
  let digits := paddedDigits (d.scale + 1) d.mantissa
  let whole := digits.take (digits.length - d.scale)
  let places := digits.drop (digits.length - d.scale)
  String.ofList ((if d.negative then ['-'] else []) ++ whole ++
    (if d.scale = 0 then [] else '.' :: places))

/-! ### Reading -/

/-- Finish a reading with the first digit that has no room: from five on it rounds the last kept
digit up. An overflowing mantissa gives up one more place. Only digits and underscores may be
left. -/
def roundRead? (negative : Bool) (mantissa scale : Nat) (next : Char) (rest : List Char) :
    Option Decimal :=
  if rest.all fun c => c.isDigit || c = '_' then
    if '5' ≤ next then
      if mantissa + 1 < 2 ^ 96 then ofRead? negative (mantissa + 1) scale
      else if scale = 0 then none
      else ofRead? negative ((mantissa + 5) / 10) (scale - 1)
    else ofRead? negative mantissa scale
  else none

/-- Whether a mantissa without its last digit leaves room for another one in 64 bits, with a margin
of 255. -/
def isNarrow (mantissa : Nat) : Bool := mantissa / 10 < (2 ^ 64 - 1) / 10 - 255

/-- Read digits with at most one point. Underscores may follow the first digit; behind the last
place of a narrow mantissa an underscore counts as the digit zero. `point` tells whether the point
was met and `any` whether a digit was. -/
def readDigits? (negative : Bool) (mantissa scale : Nat) (point any : Bool) :
    List Char → Option Decimal
  | [] => if any then ofRead? negative mantissa scale else none
  | c :: rest =>
    if c.isDigit then
      let next := mantissa * 10 + (c.toNat - '0'.toNat)
      if scale < 28 ∧ next < 2 ^ 96 then
        readDigits? negative next (if point then scale + 1 else scale) point true rest
      else if point then roundRead? negative mantissa scale c rest
      else none
    else if c = '.' && !point then readDigits? negative mantissa scale true any rest
    else if c = '_' && any then
      if scale = 28 ∧ isNarrow mantissa then roundRead? negative mantissa scale '0' rest
      else readDigits? negative mantissa scale point any rest
    else none

/-- An optional sign, then digits with at most one point. -/
def ofPlain? : List Char → Option Decimal
  | '-' :: cs => readDigits? true 0 0 false false cs
  | '+' :: cs => readDigits? false 0 0 false false cs
  | cs => readDigits? false 0 0 false false cs

/-- Move the point by at most 28 places to the left. Places beyond the capacity are rounded half
up. -/
def shiftLeft? (d : Decimal) (places : Nat) : Option Decimal :=
  if 28 < places then none
  else if d.scale + places ≤ 28 then of? d.negative d.mantissa (d.scale + places)
  else of? d.negative (divHalfUp d.mantissa (10 ^ (d.scale + places - 28))) 28

/-- Move the point `places` to the right, by at most 28 places. -/
def shiftRight? (d : Decimal) (places : Nat) : Option Decimal :=
  if places ≤ d.scale then of? d.negative d.mantissa (d.scale - places)
  else if places ≤ 28 then of? d.negative (d.mantissa * 10 ^ (places - d.scale)) 0
  else none

/-- Read a decimal number, with an optional exponent part after `e`. -/
def ofText? (cs : List Char) : Option Decimal :=
  let isMark (c : Char) : Bool := c = 'e' || c = 'E'
  match cs.dropWhile (!isMark ·) with
  | [] => ofPlain? cs
  | _ :: exponent =>
    match ofPlain? (cs.takeWhile (!isMark ·)), exponent with
    | some d, '-' :: digits => (readUnsigned? digits).bind d.shiftLeft?
    | some d, digits => (readUnsigned? digits).bind d.shiftRight?
    | none, _ => none

/-! ### Conversion from binary numbers -/

/-- A mantissa with any number of decimal places. -/
structure Scaling where
  mantissa : Nat
  places : Nat
  deriving Repr

namespace Scaling

/-- Divide by two and multiply by ten `n` times, which leaves a place behind each time: an odd
mantissa is multiplied by five, or halved with loss when it has no room; an even one is halved and
needs no further place. -/
def absorbHalves : Nat → Scaling → Scaling
  | 0, s => s
  | n + 1, s =>
    if s.mantissa % 2 = 0 then absorbHalves n ⟨s.mantissa / 2, s.places - 1⟩
    else if s.mantissa * 5 < 2 ^ 96 then absorbHalves n ⟨s.mantissa * 5, s.places⟩
    else absorbHalves n ⟨s.mantissa / 2, s.places - 1⟩

/-- Drop places, each rounding the next one half up, while more than 28 are left. A number that
vanishes is zero with no places. -/
def fitPlaces : Nat → Scaling → Scaling
  | 0, s => s
  | n + 1, s =>
    if 28 < s.places then
      if s.mantissa / 10 = 0 then ⟨0, 0⟩ else fitPlaces n ⟨divHalfUp s.mantissa 10, s.places - 1⟩
    else s

/-- Drop places, each rounding the next one half up, until the mantissa is below 2^52: a binary
number determines no more digits than that. -/
def dropExcess : Nat → Scaling → Scaling
  | 0, s => s
  | n + 1, s =>
    if 0 < s.places ∧ 2 ^ 52 ≤ s.mantissa then dropExcess n ⟨divHalfUp s.mantissa 10, s.places - 1⟩
    else s

/-- Drop trailing zeros behind the point. -/
def dropZeros : Nat → Scaling → Scaling
  | 0, s => s
  | n + 1, s =>
    if 0 < s.places ∧ s.mantissa % 10 = 0 then dropZeros n ⟨s.mantissa / 10, s.places - 1⟩ else s

/-- The decimal digits that `significand / 2 ^ halves` determines. -/
def ofHalves (significand halves : Nat) : Scaling :=
  let fitted := fitPlaces halves (absorbHalves halves ⟨significand, halves⟩)
  dropZeros 28 (dropExcess 28 fitted)

end Scaling

/-- A binary number as a decimal of the digits it determines; infinities, undefined numbers and
numbers beyond the capacity have none. A whole number keeps all its digits, and zero its sign. -/
def ofBinary64? (x : Binary64) : Option Decimal :=
  match x.decode with
  | .finite negative significand exponent =>
    if significand = 0 then of? negative 0 0
    else if 1074 ≤ exponent then of? negative (significand * 2 ^ (exponent - 1074)) 0
    else
      let digits := Scaling.ofHalves significand (1074 - exponent)
      of? negative digits.mantissa digits.places
  | _ => none

/-! ### Conversion to binary numbers -/

/-- The power 10^n computed by repeated squaring, rounding each product. -/
def binaryPower (base result : Binary64) : Nat → Nat → Binary64
  | 0, _ => result
  | fuel + 1, n =>
    let result' := if n % 2 = 1 then result.mulMagnitude base else result
    if n / 2 = 0 then result' else binaryPower (base.mulMagnitude base) result' fuel (n / 2)

/-- The binary number of a decimal: whole part and fraction are converted on their own and added,
and the sum is rounded to `scale` decimal places. -/
def toBinary64 (d : Decimal) : Binary64 :=
  let magnitude :=
    if d.scale = 0 then Binary64.ofNat d.mantissa
    else
      let whole := Binary64.ofNat (d.mantissa / 10 ^ d.scale)
      let fraction :=
        (Binary64.ofNat (d.mantissa % 10 ^ d.scale)).divMagnitude (Binary64.ofNat (10 ^ d.scale))
      if fraction = .zero then whole
      else
        let power := binaryPower (Binary64.ofNat 10) (Binary64.ofNat 1) 6 d.scale
        let scaled := (whole.addMagnitude fraction).mulMagnitude power
        (Binary64.ofNat scaled.roundMagnitude).divMagnitude power
  if d.negative then magnitude.neg else magnitude

/-- A word denotes itself. -/
@[simp] theorem num_ofUInt64 (n : UInt64) : (ofUInt64 n).num = n.toNat := rfl

/-- A signed word denotes itself. -/
@[simp] theorem num_ofInt64 (i : Int64) : (ofInt64 i).num = i.toInt := by
  simp only [num, ofInt64, decide_eq_true_eq]
  split <;> omega

/-- Swapping the arguments of a comparison reverses the answer. -/
theorem compare_swap (a b : Decimal) : (a.compare b).swap = b.compare a := by
  unfold compare
  exact Std.OrientedOrd.eq_swap.symm

end Decimal

end EntityQuery
