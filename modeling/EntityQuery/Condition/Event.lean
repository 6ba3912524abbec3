import EntityQuery.Condition.Slots

/-!
# Failures and events

* `ConditionError` — why an edit or a question fails.
* `Notice`, `Event` — what an edit changes, and what one listener hears of it.
-/

namespace EntityQuery

/-- Why an edit or a question fails. -/
inductive ConditionError where
  | unknownCondition (id : NodeId)
  | notABlock (id : NodeId)
  | notASimpleCondition (id : NodeId)
  | noTemplateCondition (id : NodeId)
  | cannotRemoveRoot
  | noOperator (path : String)
  deriving DecidableEq, Repr

/-- The reason in words. -/
def ConditionError.message : ConditionError → String
  | .unknownCondition id => "condition " ++ id.text ++ " does not exist in this tree"
  | .notABlock id => "condition " ++ id.text ++ " is not a block"
  | .notASimpleCondition id => "condition " ++ id.text ++ " is not a simple condition"
  | .noTemplateCondition id =>
    "block " ++ id.text ++ " contains no simple condition to use as a template"
  | .cannotRemoveRoot => "the root condition cannot be removed"
  | .noOperator path => "no operator is available for property '" ++ path ++ "'"

/-- What an edit changes. -/
inductive Change where
  | added
  | removed
  | grouped
  | ungrouped
  | cleared
  | propertyChanged
  | operatorChanged
  | valueChanged
  | logicalOperatorChanged
  deriving DecidableEq, Repr

/-- Which condition changes, and how. -/
structure Notice where
  source : NodeId
  change : Change
  deriving DecidableEq, Repr

/-- What one listener hears. -/
structure Event extends Notice where
  listener : Nat
  deriving DecidableEq, Repr

/-- What listeners hear of a change, in their order. -/
def Notice.events (notice : Notice) (listeners : List Nat) : List Event :=
  listeners.map fun listener => { notice with listener }

end EntityQuery
