import EntityQuery.Operator.Basic

/-!
# Operator factories

An `OperatorFactory` offers the operators of a property, as a rule by its kind. The first one
offered is, as a rule, the operator of a new condition.

* `OperatorFactory.standard` — comparisons for every kind, order and membership where they make
  sense.
* `OperatorFactory.fixed` — the same operators for every kind.
* `OperatorFactory.withPatterns` — patterns for texts besides the operators of another factory.
-/

namespace EntityQuery

/-- The operators that are offered for a kind and for a property, in order, and the operator of a
new condition. -/
structure OperatorFactory where
  offer : Kind → List Operator
  offerFor : Path → List Operator := fun p => offer p.kind
  defaultFor? : Path → Option Operator := fun p => (offerFor p).head?

namespace OperatorFactory

/-- Equality for every kind, order for numbers and temporal values, membership for numbers and
texts. -/
def standard : OperatorFactory where
  offer k :=
    [.comparison .equal, .comparison .notEqual] ++
      (if k.category.isNumeric || k.category == .temporal then
        [.comparison .lessThan, .comparison .lessThanOrEqual, .comparison .greaterThan,
          .comparison .greaterThanOrEqual]
      else []) ++
      (if k.category.isNumeric || k.category == .text then
        [.membership false, .membership true]
      else [])

/-- The same operators for every kind. -/
def fixed (operators : List Operator) : OperatorFactory where
  offer _ := operators

/-- An operator at the end of a list, unless the list has it. -/
def addNew (operators : List Operator) (op : Operator) : List Operator :=
  if operators.contains op then operators else operators ++ [op]

/-- Patterns for texts, besides the operators of another factory. -/
def withPatterns (inner : OperatorFactory) : OperatorFactory where
  offer k :=
    if k.category == .text then addNew (addNew (inner.offer k) (.pattern false)) (.pattern true)
    else inner.offer k

/-- An added operator leaves the list before it as it is. -/
theorem prefix_addNew (operators : List Operator) (op : Operator) :
    operators <+: addNew operators op := by
  rw [addNew]
  split
  · exact List.prefix_rfl
  · exact List.prefix_append ..

/-- An added operator is in the list, up to its key. -/
theorem contains_addNew (operators : List Operator) (op : Operator) :
    (addNew operators op).contains op = true := by
  rw [addNew]
  split
  · assumption
  · have same : (op == op) = true := Operator.beq_iff.2 rfl
    simp [same]

end OperatorFactory

end EntityQuery
