import EntityQuery.Condition.Tree
import EntityQuery.Query.Source

/-!
# Failures of queries

* `QueryError` — why a query gives no answer.
* `Tallies` — how many queries were run, failed and were timed, and how many conditions were
  compiled.
-/

namespace EntityQuery

/-- Why a query gives no answer. -/
inductive QueryError where
  | path (e : PathError)
  | condition (e : ConditionError)
  | pageOutOfRange (page totalPages : Nat)
  | invalidPageSize
  | notSelectable (name : String)
  | unknownEntity (name : String)
  | missingSource (entity : String)
  | source (e : SourceError)
  deriving DecidableEq, Repr

/-- The reason in words. -/
def QueryError.message : QueryError → String
  | .path e => e.message
  | .condition e => e.message
  | .pageOutOfRange page totalPages =>
    "page " ++ toString page ++ " is out of range: the result has " ++ toString totalPages ++
      " page(s)"
  | .invalidPageSize => "page size must be greater than zero"
  | .notSelectable name => "'" ++ name ++ "' is not among the selectable paths of this query"
  | .unknownEntity name => "no entity named '" ++ name ++ "' is registered"
  | .missingSource entity => "query for " ++ entity ++ " was built without a data source"
  | .source e => "data source error: " ++ e.message

/-- How many queries were run, failed and were timed, and how many conditions were compiled. -/
structure Tallies where
  queries : Nat := 0
  errors : Nat := 0
  durations : Nat := 0
  compilations : Nat := 0
  deriving DecidableEq, Repr, Inhabited

namespace Tallies

/-- Tallies together. -/
def add (a b : Tallies) : Tallies :=
  ⟨a.queries + b.queries, a.errors + b.errors, a.durations + b.durations,
    a.compilations + b.compilations⟩

instance : Add Tallies := ⟨add⟩

/-- The tallies of one query with its outcome. -/
def ofOutcome {α : Type} : Except SourceError α → Tallies
  | .ok _ => { queries := 1, durations := 1 }
  | .error _ => { queries := 1, errors := 1, durations := 1 }

/-- Every query is timed. -/
theorem durations_ofOutcome {α : Type} (outcome : Except SourceError α) :
    (ofOutcome outcome).durations = (ofOutcome outcome).queries := by
  cases outcome <;> rfl

end Tallies

end EntityQuery
