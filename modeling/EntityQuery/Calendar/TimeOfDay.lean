import EntityQuery.Number.Digits
import EntityQuery.Text.Scan

/-!
# Times of day

Times with nanoseconds. A leap second is the second 59 with a nanosecond count of 10^9 or more.

* `TimeOfDay.of?` — the time of an hour, minute, second and nanosecond count.
* `TimeOfDay.text` — hours, minutes and seconds, with 3, 6 or 9 places if there is a fraction; a
  leap second is shown as second 60.
* `TimeOfDay.ofText?` — reading a time, with or without seconds.
-/

namespace EntityQuery

/-- Nanoseconds of a second. -/
def nanosPerSecond : Nat := 1000000000

/-- A time of day. -/
structure TimeOfDay where
  hour : Nat
  minute : Nat
  second : Nat
  nano : Nat
  hour_lt : hour < 24
  minute_lt : minute < 60
  second_lt : second < 60
  nano_lt : nano < nanosPerSecond ∨ (second = 59 ∧ nano < 2 * nanosPerSecond)
  deriving DecidableEq

namespace TimeOfDay

/-- The time of an hour, minute, second and nanosecond count, if there is one. -/
def of? (hour minute second nano : Nat) : Option TimeOfDay :=
  if h : hour < 24 ∧ minute < 60 ∧ second < 60 ∧
      (nano < nanosPerSecond ∨ (second = 59 ∧ nano < 2 * nanosPerSecond)) then
    some ⟨hour, minute, second, nano, h.1, h.2.1, h.2.2.1, h.2.2.2⟩
  else none

/-- The start of the day. -/
def midnight : TimeOfDay := ⟨0, 0, 0, 0, by decide, by decide, by decide, by decide⟩

instance : Inhabited TimeOfDay := ⟨midnight⟩

/-- The order within a day. -/
def compare (a b : TimeOfDay) : Ordering :=
  (Ord.compare a.hour b.hour).then ((Ord.compare a.minute b.minute).then
    ((Ord.compare a.second b.second).then (Ord.compare a.nano b.nano)))

/-- A fraction of a second with 3, 6 or 9 places, the fewest that are exact, or none for zero. -/
def fractionText (nano : Nat) : List Char :=
  if nano = 0 then []
  else if nano % 1000000 = 0 then '.' :: paddedDigits 3 (nano / 1000000)
  else if nano % 1000 = 0 then '.' :: paddedDigits 6 (nano / 1000)
  else '.' :: paddedDigits 9 nano

/-- Hours, minutes and seconds, joined by colons, and the fraction. -/
def chars (t : TimeOfDay) : List Char :=
  let (second, nano) :=
    if nanosPerSecond ≤ t.nano then (t.second + 1, t.nano - nanosPerSecond) else (t.second, t.nano)
  paddedDigits 2 t.hour ++ ':' :: paddedDigits 2 t.minute ++ ':' :: paddedDigits 2 second ++
    fractionText nano

/-- Hours, minutes and seconds, joined by colons, and the fraction. -/
def text (t : TimeOfDay) : String := String.ofList t.chars

/-! ### Reading -/

/-- The time of parts as they are read: second 60 is a leap second. -/
def ofRead? (hour minute second nano : Nat) : Option TimeOfDay :=
  if second = 60 then of? hour minute 59 (nanosPerSecond + nano) else of? hour minute second nano

/-- Digits after a point, as nanoseconds; the tenth and later digits are dropped. -/
def scanFraction : Scan Nat := do
  if ← Scan.startsWith '.' then
    Scan.literal ['.']
    let places ← Scan.digits 1 9
    let _ ← Scan.while_ Char.isDigit
    return Nat.ofDigitChars 10 places 0 * 10 ^ (9 - places.length)
  else
    return 0

/-- A number of one or two digits. Blanks may come first. -/
def scanTwo : Scan Nat := do
  Scan.blanks
  Scan.number 1 2

/-- Hours and minutes. -/
def scanShort : Scan TimeOfDay := do
  let hour ← scanTwo
  Scan.literal [':']
  let minute ← scanTwo
  match of? hour minute 0 0 with
  | some time => return time
  | none => Scan.refuse

/-- Hours, minutes and seconds, and an optional fraction. With `loose`, blanks may come before the
colons. -/
def scanLong (loose : Bool) : Scan TimeOfDay := do
  let hour ← scanTwo
  if loose then Scan.blanks
  Scan.literal [':']
  let minute ← scanTwo
  if loose then Scan.blanks
  Scan.literal [':']
  let second ← scanTwo
  let nano ← scanFraction
  match ofRead? hour minute second nano with
  | some time => return time
  | none => Scan.refuse

/-- Read a time, with or without seconds. -/
def ofText? (cs : List Char) : Option TimeOfDay :=
  ((scanLong false).run? cs).or (scanShort.run? cs)

/-- A time is found again from its parts. -/
theorem of?_parts (t : TimeOfDay) : of? t.hour t.minute t.second t.nano = some t := by
  simp [of?, t.hour_lt, t.minute_lt, t.second_lt, t.nano_lt]

/-- Swapping the arguments of a comparison reverses the answer. -/
theorem compare_swap (a b : TimeOfDay) : (a.compare b).swap = b.compare a := by
  have step (m n : Nat) : (Ord.compare m n).swap = Ord.compare n m := Std.OrientedOrd.eq_swap.symm
  simp only [compare, Ordering.swap_then, step]

/-- Two times compare equal only when they are the same. -/
theorem eq_of_compare_eq {a b : TimeOfDay} (h : a.compare b = .eq) : a = b := by
  simp only [compare, Ordering.then_eq_eq, Std.LawfulEqOrd.compare_eq_iff_eq] at h
  obtain ⟨hour, minute, second, nano⟩ := h
  cases a
  cases b
  simp_all

end TimeOfDay

end EntityQuery
