/-!
# Rounding quotients of natural numbers

Exact division with the two rounding rules the library needs.

* `divHalfEven` — nearest quotient, a half goes to the even neighbour.
* `divHalfUp` — nearest quotient, a half goes up.
-/

namespace EntityQuery

/-- The natural number nearest to `num / den`; a half goes to the even neighbour. -/
def divHalfEven (num den : Nat) : Nat :=
  let q := num / den
  let r := num % den
  if 2 * r < den then q
  else if den < 2 * r then q + 1
  else if q % 2 = 0 then q else q + 1

/-- The natural number nearest to `num / den`; a half goes up. -/
def divHalfUp (num den : Nat) : Nat :=
  if den ≤ 2 * (num % den) then num / den + 1 else num / den

/-- Rounding to even never leaves the two neighbours of the quotient. -/
theorem divHalfEven_bounds (num den : Nat) :
    num / den ≤ divHalfEven num den ∧ divHalfEven num den ≤ num / den + 1 := by
  unfold divHalfEven
  dsimp only
  split
  · omega
  · split
    · omega
    · split <;> omega

/-- Rounding half up never leaves the two neighbours of the quotient. -/
theorem divHalfUp_bounds (num den : Nat) :
    num / den ≤ divHalfUp num den ∧ divHalfUp num den ≤ num / den + 1 := by
  unfold divHalfUp
  split <;> omega

end EntityQuery
