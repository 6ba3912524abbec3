import EntityQuery.Value.Compare
import EntityQuery.Expr.Like

/-!
# Methods

A `Method` is a named function of values that expressions can call.

* `Method.contains` — whether a list holds a value.
* `Method.like` — whether a text matches a pattern.
-/

namespace EntityQuery

/-- A named function of values. Methods are told apart by their names. -/
structure Method where
  name : String
  invoke : List Value → Value

namespace Method

/-- Equality of methods. -/
def same (m n : Method) : Bool := m.name == n.name

/-- Whether a list holds a value. -/
def containsValue : List Value → Bool
  | [.list items, item] => items.any (·.looseEq item)
  | _ => false

/-- Whether a text matches a pattern. -/
def likeValue : List Value → Bool
  | [subject, pattern] =>
    match subject.asText?, pattern.asText? with
    | some s, some p => EntityQuery.like s p
    | _, _ => false
  | _ => false

/-- Membership in a list, with two arguments: the list and the value. -/
def contains : Method := ⟨"contains", fun args => .bool (containsValue args)⟩

/-- A text that matches a pattern, with two arguments: the text and the pattern. -/
def like : Method := ⟨"like", fun args => .bool (likeValue args)⟩

/-- The method with its name. -/
def describe (m : Method) : String := "Method(" ++ m.name ++ ")"

/-- Every method is the same as itself. -/
@[simp] theorem same_self (m : Method) : m.same m = true := by simp [same]

end Method

end EntityQuery
