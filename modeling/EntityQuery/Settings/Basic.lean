/-!
# Settings

What queries start with unless they are told otherwise.

* `Settings` — page size, depth of discovery and pattern operators, with their defaults.
-/

namespace EntityQuery

/-- The page size of a first page, the depth limit for paths whose filter has none, and whether
texts can be matched with patterns. -/
structure Settings where
  defaultPageSize : Nat := 20
  maxDepth : Option Nat := none
  patternOperators : Bool := true
  deriving DecidableEq, Repr, Inhabited

end EntityQuery
