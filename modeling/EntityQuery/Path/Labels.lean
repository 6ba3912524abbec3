import EntityQuery.Path.Basic
import EntityQuery.Value.Text
import EntityQuery.Text.Uppercase

/-!
# Labels

How paths and values are named for people.

* `Labels` — a name for every path and a text for every value.
* `Labels.literal` — dotted names, and values as expressions show them.
* `Labels.humanized` — words instead of names, and plain values.
-/

namespace EntityQuery

/-- Names for paths and texts for values. -/
structure Labels where
  name : Path → String
  value : Path → Value → String

namespace Labels

/-- Dotted names, and values as expressions show them. -/
def literal : Labels := ⟨(·.fullName), fun _ v => v.display⟩

/-- A segment of a path as words: blanks for underscores, the first letter in upper case. -/
def words (segment : String) : String :=
  match segment.toList.map fun c => if c = '_' then ' ' else c with
  | [] => ""
  | first :: rest => String.ofList (upperCase first ++ rest)

/-- A value in words: null and truth values have words of their own. -/
def plainValue : Value → String
  | .null => "(empty)"
  | .bool b => if b then "yes" else "no"
  | v => v.plain

/-- The segments of a path as words, and values in words. -/
def humanized : Labels := ⟨fun p => " > ".intercalate (p.steps.map words), fun _ v => plainValue v⟩

end Labels

end EntityQuery
