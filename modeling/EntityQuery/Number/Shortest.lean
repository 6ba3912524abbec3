import EntityQuery.Number.Binary64
import EntityQuery.Number.Digits

/-!
# Shortest decimal texts of floating-point numbers

The text of a finite number uses the fewest significant digits that still read back as the same
number, and among those the digits nearest to it. A notation decides between two that are equally
near.

* `shortest` — digits and exponent of that decimal, found in exact integer arithmetic.
* `Layout` — the choices of a notation: how ties are rounded, when an exponent is written, how it
  looks, and the texts of numbers without digits.
* `Layout.render` — the text of a number under a layout.
-/

namespace EntityQuery

namespace Binary64

/-- The significant digits `digits` (a number without trailing zeros) stand for
`digits * 10 ^ (point - count digits)`: the decimal point sits `point` places right of the first
digit's left side. -/
structure ShortDecimal where
  digits : Nat
  point : Int
  deriving DecidableEq, Repr

/-- A quotient of natural numbers read as a scale: `10 ^ e` for any integer `e`. -/
def powerOfTen (e : Int) : Nat × Nat :=
  if 0 ≤ e then (10 ^ e.toNat, 1) else (1, 10 ^ (-e).toNat)

/-- The first `e`, counting down, with `10 ^ e ≤ num / den`. -/
def exponentBelow (num den : Nat) : Nat → Int → Int
  | 0, e => e
  | fuel + 1, e =>
    let (p, q) := powerOfTen e
    if den * p ≤ num * q then e else exponentBelow num den fuel (e - 1)

/-- The number `e` with `10 ^ e ≤ num / den < 10 ^ (e + 1)`.

The search starts above the binary logarithm times log 2, a little more than 0.30103 at most. -/
def leadingExponent (num den : Nat) : Int :=
  let binary : Int := (num.log2 : Int) - den.log2 + 1
  exponentBelow num den 700 (binary * 30103 / 100000 + 1)

/-- Try the decimal grid of a step: of the two neighbours of `value / step` take the one inside the
interval from `low` to `high` (with its ends when `closed`), or if both are, the one that `round`
chooses. The unit of all arguments is the same. -/
def onGrid (round : Nat → Nat → Nat) (value low high step : Nat) (closed : Bool) : Option Nat :=
  let below := value / step
  let inside (n : Nat) : Bool :=
    if closed then low ≤ n * step && n * step ≤ high else low < n * step && n * step < high
  let atBelow := below != 0 && inside below
  let atAbove := inside (below + 1)
  match atBelow, atAbove with
  | true, true => some (round value step)
  | true, false => some below
  | false, true => some (below + 1)
  | false, false => none

/-- Drop trailing zeros of a digit string given as a number. -/
def dropZeros : Nat → Nat → Nat
  | 0, n => n
  | fuel + 1, n => if n ≠ 0 ∧ n % 10 = 0 then dropZeros fuel (n / 10) else n

/-- Search for the fewest significant digits, from `count` upwards. All quantities are multiplied
by `scale`, so that the decimal grid and the rounding interval are whole numbers. -/
def searchGrid (round : Nat → Nat → Nat) (value low high scale : Nat) (closed : Bool)
    (leading : Int) : Nat → Nat → ShortDecimal
  | 0, _ => ⟨0, 0⟩
  | fuel + 1, count =>
    let (p, q) := powerOfTen (leading - count + 1)
    match onGrid round (value * q) (low * q) (high * q) (scale * p) closed with
    | some n =>
      -- rounding up may have produced one digit more, a power of ten
      let extra : Int := if 10 ^ count ≤ n then 1 else 0
      ⟨dropZeros (count + 1) n, leading + 1 + extra⟩
    | none => searchGrid round value low high scale closed leading fuel (count + 1)

/-- The fewest significant digits that read back as `significand * 2 ^ exponent` units.

The rounding interval reaches half a step to each side, a quarter step below a power of two, and
includes its ends when the significand is even. Seventeen digits always suffice. -/
def shortest (round : Nat → Nat → Nat) (significand exponent : Nat) : ShortDecimal :=
  let value := 4 * significand * 2 ^ exponent
  let narrow := significand = 2 ^ 52 ∧ 0 < exponent
  let low := value - (if narrow then 2 ^ exponent else 2 * 2 ^ exponent)
  let high := value + 2 * 2 ^ exponent
  let scale := 4 * unitsPerOne
  searchGrid round value low high scale (significand % 2 = 0)
    (leadingExponent value scale) 18 1

end Binary64

/-- How the shortest digits of a number are laid out as text. -/
structure Layout where
  /-- The whole number nearest to a quotient; two that are equally near are the choice of the
  notation. -/
  round : Nat → Nat → Nat
  /-- Exponents of the first digit that are still written without an exponent part. -/
  positional : Int → Bool
  /-- What follows a whole number written without an exponent part. -/
  wholeSuffix : String
  /-- The text of an exponent, given its value. -/
  exponentText : Int → String
  /-- The text of an undefined number. -/
  nan : String
  /-- The text of an infinity, by its sign. -/
  infinity : Bool → String

namespace Layout

/-- Digits without an exponent part: zeros fill the places up to the decimal point. -/
def positionalText (layout : Layout) (digits : List Char) (point : Int) : String :=
  let count := (digits.length : Int)
  if point ≤ 0 then
    "0." ++ String.ofList (List.replicate (-point).toNat '0' ++ digits)
  else if count ≤ point then
    String.ofList (digits ++ List.replicate (point - count).toNat '0') ++ layout.wholeSuffix
  else
    String.ofList (digits.take point.toNat) ++ "." ++ String.ofList (digits.drop point.toNat)

/-- One digit, a point and the other digits if there are any, and the exponent part. -/
def scientificText (layout : Layout) (digits : List Char) (point : Int) : String :=
  let fraction := digits.drop 1
  String.ofList (digits.take 1) ++ (if fraction.isEmpty then "" else "." ++ String.ofList fraction)
    ++ "e" ++ layout.exponentText (point - 1)

/-- The text of a number. -/
def render (layout : Layout) (x : Binary64) : String :=
  match x.decode with
  | .undefined => layout.nan
  | .infinite negative => layout.infinity negative
  | .finite negative significand exponent =>
    let sign := if negative then "-" else ""
    if significand = 0 then sign ++ "0" ++ layout.wholeSuffix
    else
      let short := Binary64.shortest layout.round significand exponent
      let digits := Nat.toDigits 10 short.digits
      if layout.positional (short.point - 1) then
        sign ++ layout.positionalText digits short.point
      else
        sign ++ layout.scientificText digits short.point

end Layout

end EntityQuery
