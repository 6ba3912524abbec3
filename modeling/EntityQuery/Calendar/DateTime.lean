import EntityQuery.Calendar.Date
import EntityQuery.Calendar.TimeOfDay

/-!
# Dates with a time

A `DateTime` is a date with a time of day, either without a zone or, for a timestamp, in universal
time.

* `DateTime.text`, `DateTime.isoText` — a blank or the letter T between date and time.
* `DateTime.ofText?` — reading in both forms; seconds may be missing after a blank.
* `DateTime.ofZoned?` — reading a text with an offset from universal time, as universal time.
-/

namespace EntityQuery

/-- A date with a time of day. -/
structure DateTime where
  date : Date
  time : TimeOfDay
  deriving DecidableEq, Inhabited

namespace DateTime

/-- The instant from which time is counted. -/
def epoch : DateTime := ⟨.epoch, .midnight⟩

/-- The start of a day. -/
def ofDate (d : Date) : DateTime := ⟨d, .midnight⟩

/-- The order in time. -/
def compare (a b : DateTime) : Ordering := (a.date.compare b.date).then (a.time.compare b.time)

/-- Date and time with a blank between them. -/
def text (x : DateTime) : String := String.ofList (x.date.chars ++ ' ' :: x.time.chars)

/-- Date and time with the letter T between them. -/
def isoText (x : DateTime) : String := String.ofList (x.date.chars ++ 'T' :: x.time.chars)

/-! ### Reading -/

/-- Date and time with the letter T between them; blanks may surround the parts. -/
def scanIso : Scan DateTime := do
  let date ← Date.scan true
  Scan.blanks
  Scan.literal ['T']
  let time ← TimeOfDay.scanLong true
  Scan.blanks
  return ⟨date, time⟩

/-- Date and time with any blanks between them, with or without seconds. -/
def scanSpaced (seconds : Bool) : Scan DateTime := do
  let date ← Date.scan false
  Scan.blanks
  let time ← if seconds then TimeOfDay.scanLong false else TimeOfDay.scanShort
  return ⟨date, time⟩

/-- Read a date with a time. -/
def ofText? (cs : List Char) : Option DateTime :=
  (scanIso.run? cs).or (((scanSpaced true).run? cs).or ((scanSpaced false).run? cs))

/-- An offset from universal time in minutes: the letter Z, or a sign, two digits of hours and two
of minutes. -/
def scanOffset : Scan Int := do
  let c ← Scan.one fun _ => true
  if c = 'Z' ∨ c = 'z' then
    return 0
  else if c = '+' ∨ c = '-' ∨ c = '−' then
    let hours ← Scan.number 2 2
    Scan.literal [':']
    let minutes ← Scan.number 2 2
    Scan.guardThat (hours < 24 && minutes < 60)
    let total : Int := (hours * 60 + minutes : Nat)
    return if c = '+' then total else -total
  else
    Scan.refuse

/-- Move a local time by an offset of less than a day, given in minutes, to universal time. -/
def toUniversal? (x : DateTime) (offset : Int) : Option DateTime := do
  let minutes := (x.time.hour * 60 + x.time.minute : Int) - offset
  let ofDay := (minutes % 1440).toNat
  let time ← TimeOfDay.of? (ofDay / 60) (ofDay % 60) x.time.second x.time.nano
  let date ←
    if minutes < 0 then x.date.previous? else if 1440 ≤ minutes then x.date.next? else some x.date
  return ⟨date, time⟩

/-- Date, time and offset with exactly the digits the standard form has, as universal time. -/
def scanZoned : Scan DateTime := do
  let year ← Scan.number 4 4
  Scan.literal ['-']
  let month ← Scan.number 2 2
  Scan.literal ['-']
  let day ← Scan.number 2 2
  let _ ← Scan.one fun c => c = 'T' || c = 't' || c = ' '
  let hour ← Scan.number 2 2
  Scan.literal [':']
  let minute ← Scan.number 2 2
  Scan.literal [':']
  let second ← Scan.number 2 2
  let nano ← TimeOfDay.scanFraction
  let offset ← scanOffset
  let universal := do
    let date ← Date.ofYmd? year month day
    let time ← TimeOfDay.ofRead? hour minute second nano
    toUniversal? ⟨date, time⟩ offset
  match universal with
  | some instant => return instant
  | none => Scan.refuse

/-- Read a text with an offset from universal time. -/
def ofZoned? (cs : List Char) : Option DateTime := scanZoned.run? cs

/-- Swapping the arguments of a comparison reverses the answer. -/
theorem compare_swap (a b : DateTime) : (a.compare b).swap = b.compare a := by
  simp only [compare, Ordering.swap_then, Date.compare_swap, TimeOfDay.compare_swap]

/-- Two instants compare equal only when they are the same. -/
theorem eq_of_compare_eq {a b : DateTime} (h : a.compare b = .eq) : a = b := by
  simp only [compare, Ordering.then_eq_eq] at h
  cases a
  cases b
  simp only [mk.injEq]
  exact ⟨Date.eq_of_compare_eq h.1, TimeOfDay.eq_of_compare_eq h.2⟩

end DateTime

end EntityQuery
