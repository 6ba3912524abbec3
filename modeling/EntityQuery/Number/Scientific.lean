import EntityQuery.Number.Binary64
import EntityQuery.Number.Digits

/-!
# Decimal text of floating-point numbers

Reading digits with a point among them, and an exponent part after the letter E.

* `Binary64.ofScientific` — the number nearest to digits times a power of ten.
* `Binary64.ofText?` — the number of a text; numbers beyond the range become infinite.
* `Binary64.ofScientific_zero` — no digits but zeros give a zero.
-/

namespace EntityQuery

namespace Binary64

/-- The digits of a number with a point among them: all digits, and how many follow the point. -/
def readPoint? (cs : List Char) : Option (Nat × Nat) :=
  let whole := cs.takeWhile Char.isDigit
  match cs.dropWhile Char.isDigit with
  | [] => if whole.isEmpty then none else some (Nat.ofDigitChars 10 whole 0, 0)
  | '.' :: places =>
    if places.all Char.isDigit && !(whole.isEmpty && places.isEmpty) then
      some (Nat.ofDigitChars 10 (whole ++ places) 0, places.length)
    else none
  | _ => none

/-- The floating-point number of digits and a power of ten. Powers that exceed the range by far are
not computed. -/
def ofScientific (negative : Bool) (digits : Nat) (e : Int) : Binary64 :=
  if digits = 0 then ofRatio negative 0 1
  else if 400 < e then infinity negative
  else if e + (Nat.toDigits 10 digits).length < -400 then ofRatio negative 0 1
  else if 0 ≤ e then ofRatio negative (digits * 10 ^ e.toNat) 1
  else ofRatio negative digits (10 ^ (-e).toNat)

/-- Read a floating-point number: a sign, digits with a point among them, and an exponent part after
the letter E. -/
def ofText? (cs : List Char) : Option Binary64 :=
  let (negative, cs) :=
    match cs with
    | '-' :: rest => (true, rest)
    | '+' :: rest => (false, rest)
    | _ => (false, cs)
  let isMark (c : Char) : Bool := c = 'e' || c = 'E'
  match readPoint? (cs.takeWhile (!isMark ·)) with
  | none => none
  | some (digits, places) =>
    let exponent? :=
      match cs.dropWhile (!isMark ·) with
      | [] => some 0
      | _ :: exponent => readSigned? exponent
    exponent?.map fun e => ofScientific negative digits (e - places)

/-- Digits that are all zeros give a zero, whatever the power of ten. -/
@[simp] theorem ofScientific_zero (negative : Bool) (e : Int) :
    ofScientific negative 0 e = ofRatio negative 0 1 := rfl

end Binary64

end EntityQuery
