import EntityQuery.Query.Basic

/-!
# Changes of queries as data

A `QueryChange` is one call that changes the conditions or the selection of a query. A list of
changes goes on after those that fail.

* `QueryChange` — calls.
* `Query.change`, `Query.changed` — the query after a change, and after a list of them.
-/

namespace EntityQuery

/-- A call that changes a query: an edit of the conditions, or another selection. The flags of all
paths can be set at once. -/
inductive QueryChange where
  | edit (e : Edit)
  | setSelected (name : String) (b : Bool)
  | selectOnly (names : List String)
  | toggle (name : String)
  | setFlags (flag : Selectable → Bool)

namespace Query

variable {m : EntityModel}

/-- The query after a change. A change of the selection that fails leaves it as it is. -/
def change (q : Query m) : QueryChange → Query m
  | .edit e => { q with conditions := q.conditions.after e }
  | .setSelected name b => (q.setSelected name b).toOption.getD q
  | .selectOnly names => (q.selectOnly names).toOption.getD q
  | .toggle name => q.toggle name
  | .setFlags flag =>
    { q with selectables := q.selectables.map fun s => { s with selected := flag s } }

/-- The query after a list of changes. -/
def changed (q : Query m) (changes : List QueryChange) : Query m := changes.foldl change q

/-- A list of changes goes on where an earlier one has ended. -/
theorem changed_append (q : Query m) (changes others : List QueryChange) :
    q.changed (changes ++ others) = (q.changed changes).changed others := by
  simp [changed, List.foldl_append]

end Query

end EntityQuery
