/-!
# Windows

A `Window` is a part of a sequence.

* `Window.apply` — the items in a window.
* `Window.between` — the items at the positions between two ends.
* `Window.apply_page`, `Window.apply_bounded` — which positions a window has.
-/

namespace EntityQuery

/-- A part of a sequence: between two positions, or a page. -/
inductive Window where
  | bounded (stop : Option Nat) (start : Option Nat)
  | page (offset size : Nat)
  deriving DecidableEq, Repr

namespace Window

/-- The whole sequence. -/
def whole : Window := .bounded none none

/-- The items in a window: the first `stop` ones without the first `start` ones, or the first `size`
ones after the first `offset` ones. -/
def apply {α : Type} : Window → List α → List α
  | .bounded stop start, items =>
    ((stop.map items.take).getD items).drop (start.getD 0)
  | .page offset size, items => (items.drop offset).take size

/-- The items at the positions from `start` up to but excluding `stop`, if there is a `stop`. -/
def between {α : Type} (start : Nat) (stop : Option Nat) (items : List α) : List α :=
  (items.zipIdx.filter fun x =>
    decide (start ≤ x.2) && stop.all fun stop => decide (x.2 < stop)).map (·.1)

/-- The whole sequence is a window. -/
@[simp] theorem apply_whole {α : Type} (items : List α) : whole.apply items = items := rfl

/-- A page is the part between its ends. -/
theorem apply_page {α : Type} (offset size : Nat) (items : List α) :
    (page offset size).apply items = (bounded (some (offset + size)) (some offset)).apply items := by
  simp [apply, List.drop_take]

/-- A window of changed items has the changed items of the window. -/
theorem apply_map {α β : Type} (f : α → β) (w : Window) (items : List α) :
    w.apply (items.map f) = (w.apply items).map f := by
  cases w with
  | bounded stop start => cases stop <;> simp [apply, List.map_take, List.map_drop]
  | page offset size => simp [apply, List.map_take, List.map_drop]

/-- The items between two positions come in their order. -/
theorem between_sublist {α : Type} (start : Nat) (stop : Option Nat) (items : List α) :
    (between start stop items).Sublist items := by
  have hall := (List.filter_sublist (l := items.zipIdx) (p := fun x =>
    decide (start ≤ x.2) && stop.all fun stop => decide (x.2 < stop))).map Prod.fst
  rwa [List.zipIdx_map_fst] at hall

theorem between_from {α : Type} (start : Nat) (stop : Option Nat) (items : List α) (k : Nat) :
    ((items.zipIdx k).filter fun x =>
        decide (start ≤ x.2) && stop.all fun stop => decide (x.2 < stop)).map (·.1) =
      ((stop.map fun stop => items.take (stop - k)).getD items).drop (start - k) := by
  induction items generalizing k with
  | nil => cases stop <;> simp
  | cons item items ih =>
    have hlater := ih (k + 1)
    rw [List.zipIdx_cons, List.filter_cons]
    cases stop with
    | none =>
      simp only [Option.all_none, Bool.and_true, Option.map_none, Option.getD_none,
        decide_eq_true_eq] at hlater ⊢
      split
      · rename_i hstart
        rw [List.map_cons, hlater, Nat.sub_eq_zero_of_le hstart,
          Nat.sub_eq_zero_of_le (Nat.le_succ_of_le hstart)]
        rfl
      · rename_i hstart
        rw [hlater, show start - k = start - (k + 1) + 1 by omega]
        rfl
    | some stop =>
      simp only [Option.all_some, Option.map_some, Option.getD_some, Bool.and_eq_true,
        decide_eq_true_eq] at hlater ⊢
      split
      · rename_i hinside
        rw [List.map_cons, hlater, Nat.sub_eq_zero_of_le hinside.1,
          Nat.sub_eq_zero_of_le (Nat.le_succ_of_le hinside.1),
          show stop - k = stop - (k + 1) + 1 by omega]
        rfl
      · rename_i houtside
        by_cases hstop : k < stop
        · rw [hlater, show start - k = start - (k + 1) + 1 by omega,
            show stop - k = stop - (k + 1) + 1 by omega]
          rfl
        · rw [hlater, Nat.sub_eq_zero_of_le (Nat.not_lt.mp hstop),
            Nat.sub_eq_zero_of_le (Nat.le_succ_of_le (Nat.not_lt.mp hstop))]
          simp

/-- The window between two bounds has the positions between them. -/
theorem apply_bounded {α : Type} (stop start : Option Nat) (items : List α) :
    (bounded stop start).apply items = between (start.getD 0) stop items :=
  (between_from (start.getD 0) stop items 0).symm

end Window

end EntityQuery
