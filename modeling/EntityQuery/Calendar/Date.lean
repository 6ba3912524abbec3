import EntityQuery.Number.Digits
import EntityQuery.Text.Scan

/-!
# Calendar dates

Dates of the proleptic Gregorian calendar, with year zero and negative years, in the years from
-262143 to 262142.

* `Date.ofYmd?` — the date of a year, month and day, if there is one.
* `Date.compare` — the order in time.
* `Date.next?` and `Date.previous?` — the neighbouring days.
* `Date.text` — year, month and day; a year outside 0 to 9999 has a sign.
* `Date.scan` — reading a date, with or without leading zeros.
-/

namespace EntityQuery

/-- Leap years are the multiples of four, except centuries that are no multiples of four hundred. -/
def isLeapYear (year : Int) : Bool :=
  year % 4 == 0 && (year % 100 != 0 || year % 400 == 0)

/-- The number of days of a month; zero for a number that is no month. -/
def daysInMonth (year : Int) (month : Nat) : Nat :=
  match month with
  | 1 | 3 | 5 | 7 | 8 | 10 | 12 => 31
  | 4 | 6 | 9 | 11 => 30
  | 2 => if isLeapYear year then 29 else 28
  | _ => 0

/-- The first year with dates. -/
def firstYear : Int := -262143

/-- The last year with dates. -/
def lastYear : Int := 262142

/-- A day of the calendar. -/
structure Date where
  year : Int
  month : Nat
  day : Nat
  year_range : firstYear ≤ year ∧ year ≤ lastYear
  day_range : 1 ≤ day ∧ day ≤ daysInMonth year month
  deriving DecidableEq

namespace Date

/-- The date of a year, month and day, if there is one. -/
def ofYmd? (year : Int) (month day : Nat) : Option Date :=
  if h : (firstYear ≤ year ∧ year ≤ lastYear) ∧ 1 ≤ day ∧ day ≤ daysInMonth year month then
    some ⟨year, month, day, h.1, h.2⟩
  else none

/-- The first of January 1970, from which time is counted. -/
def epoch : Date := ⟨1970, 1, 1, by decide, by decide⟩

instance : Inhabited Date := ⟨epoch⟩

/-- The order in time. -/
def compare (a b : Date) : Ordering :=
  (Ord.compare a.year b.year).then ((Ord.compare a.month b.month).then (Ord.compare a.day b.day))

/-- The day after, unless it is the last one. -/
def next? (d : Date) : Option Date :=
  if d.day < daysInMonth d.year d.month then ofYmd? d.year d.month (d.day + 1)
  else if d.month < 12 then ofYmd? d.year (d.month + 1) 1
  else ofYmd? (d.year + 1) 1 1

/-- The day before, unless it is the first one. -/
def previous? (d : Date) : Option Date :=
  if 1 < d.day then ofYmd? d.year d.month (d.day - 1)
  else if 1 < d.month then ofYmd? d.year (d.month - 1) (daysInMonth d.year (d.month - 1))
  else ofYmd? (d.year - 1) 12 31

/-- Four digits of a year from 0 to 9999; any other year has a sign before at least four digits. -/
def yearText (year : Int) : List Char :=
  if 0 ≤ year ∧ year ≤ 9999 then paddedDigits 4 year.natAbs
  else (if year < 0 then '-' else '+') :: paddedDigits 4 year.natAbs

/-- Year, month and day, joined by hyphens. -/
def chars (d : Date) : List Char :=
  yearText d.year ++ '-' :: paddedDigits 2 d.month ++ '-' :: paddedDigits 2 d.day

/-- Year, month and day, joined by hyphens. -/
def text (d : Date) : String := String.ofList d.chars

/-! ### Reading -/

/-- A year: up to four digits, or any number of them after a sign. Blanks may come first. -/
def scanYear : Scan Int := do
  Scan.blanks
  if ← Scan.startsWith '-' then
    Scan.literal ['-']
    return -((← Scan.wholeNumber : Nat) : Int)
  else if ← Scan.startsWith '+' then
    Scan.literal ['+']
    return (← Scan.wholeNumber : Nat)
  else
    return (← Scan.number 1 4 : Nat)

/-- A number of one or two digits. Blanks may come first. -/
def scanTwo : Scan Nat := do
  Scan.blanks
  Scan.number 1 2

/-- Year, month and day, joined by hyphens. With `loose`, blanks may come before the hyphens. -/
def scan (loose : Bool) : Scan Date := do
  let year ← scanYear
  if loose then Scan.blanks
  Scan.literal ['-']
  let month ← scanTwo
  if loose then Scan.blanks
  Scan.literal ['-']
  let day ← scanTwo
  match ofYmd? year month day with
  | some date => return date
  | none => Scan.refuse

/-- Read a date. -/
def ofText? (cs : List Char) : Option Date := (scan false).run? cs

/-- A date is found again from its parts. -/
theorem ofYmd?_parts (d : Date) : ofYmd? d.year d.month d.day = some d := by
  simp [ofYmd?, d.year_range, d.day_range]

/-- Swapping the arguments of a comparison reverses the answer. -/
theorem compare_swap (a b : Date) : (a.compare b).swap = b.compare a := by
  have years : (Ord.compare a.year b.year).swap = Ord.compare b.year a.year :=
    Std.OrientedOrd.eq_swap.symm
  have months : (Ord.compare a.month b.month).swap = Ord.compare b.month a.month :=
    Std.OrientedOrd.eq_swap.symm
  have days : (Ord.compare a.day b.day).swap = Ord.compare b.day a.day :=
    Std.OrientedOrd.eq_swap.symm
  simp only [compare, Ordering.swap_then, years, months, days]

/-- Two dates compare equal only when they are the same day. -/
theorem eq_of_compare_eq {a b : Date} (h : a.compare b = .eq) : a = b := by
  simp only [compare, Ordering.then_eq_eq, Std.LawfulEqOrd.compare_eq_iff_eq] at h
  obtain ⟨year, month, day⟩ := h
  cases a
  cases b
  simp_all

end Date

end EntityQuery
