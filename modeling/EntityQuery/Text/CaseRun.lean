/-!
# Case runs

Case mappings of characters as runs: every `step`-th code point of an interval maps to the code
point `offset` further on.

* `CaseRun.target?` — the mapping of one run.
* `mapCase` — the mapping of a table of runs; characters outside all runs map to themselves.
-/

namespace EntityQuery

/-- Every `step`-th code point from `first` to `last` maps to the one `offset` further on. -/
structure CaseRun where
  first : Nat
  last : Nat
  step : Nat
  offset : Int

/-- Where a run maps a code point, if it belongs to the run. -/
def CaseRun.target? (run : CaseRun) (n : Nat) : Option Nat :=
  if run.first ≤ n ∧ n ≤ run.last ∧ (n - run.first) % run.step = 0 then
    some ((n : Int) + run.offset).toNat
  else none

/-- Map a character by the first run that has it; other characters stay. -/
def mapCase (runs : List CaseRun) (c : Char) : Char :=
  match runs.findSome? (·.target? c.toNat) with
  | some n => Char.ofNat n
  | none => c

/-- A character in no run stays. -/
theorem mapCase_of_none {runs : List CaseRun} {c : Char}
    (h : runs.findSome? (·.target? c.toNat) = none) : mapCase runs c = c := by
  simp [mapCase, h]

end EntityQuery
