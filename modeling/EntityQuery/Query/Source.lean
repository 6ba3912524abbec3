import EntityQuery.Entity.Codec
import EntityQuery.Expr.Basic
import EntityQuery.Projection
import EntityQuery.Query.Window

/-!
# Sources

A `Source` counts and fetches the records of one entity type.

* `FetchRequest` — which records are fetched, and what of them.
* `Source.memory` — a source of stored entities.
* `Source.offline` — a source that cannot be fetched from.
-/

namespace EntityQuery

/-- Why a source gives no answer. -/
inductive SourceError where
  | unavailable (message : String)
  | backend (message : String)
  deriving DecidableEq, Repr

/-- The reason in words. -/
def SourceError.message : SourceError → String
  | .unavailable message => "data source unavailable: " ++ message
  | .backend message => message

/-- Which records are fetched and what of them: without a filter all records, without a projection
whole records. The includes name the objects that are worth loading early. -/
structure FetchRequest where
  filter : Option Expr := none
  projection : Option Projection := none
  window : Window := .whole
  includes : List String := []

/-- Counts and fetches records. -/
structure Source where
  count : Option Expr → Except SourceError Nat
  fetch : FetchRequest → Except SourceError (List Record)

/-- The records on which a filter holds. -/
def matching (filter : Option Expr) (records : List Record) : List Record :=
  records.filter fun r => filter.all (·.test r)

namespace Source

/-- A source of stored entities. -/
def memory (m : EntityModel) (e : m.Ty) (items : List Datum) : Source where
  count filter := .ok (matching filter (items.map (m.toRecord e))).length
  fetch request :=
    let records := request.window.apply (matching request.filter (items.map (m.toRecord e)))
    .ok ((request.projection.map fun p => records.map p.apply).getD records)

/-- A source that cannot be fetched from; it may still know a number of records. -/
def offline (count? : Option Nat) (error : SourceError) : Source where
  count _ := (count?.map .ok).getD (.error error)
  fetch _ := .error error

/-- Without a filter every stored entity counts. -/
theorem count_memory (m : EntityModel) (e : m.Ty) (items : List Datum) :
    (memory m e items).count none = .ok items.length := by
  have all (records : List Record) : records.filter (fun _ => true) = records :=
    List.filter_eq_self.2 fun _ _ => rfl
  simp [memory, matching, all]

end Source

end EntityQuery
