import EntityQuery.Path.Filter
import EntityQuery.Value.Json

/-!
# Options of catalogues

Which paths the queries of a catalogue offer, and how these options are read from a JSON document.
A document may give the members of an object by name, where unknown names do not count and missing
ones have their defaults, or all of them in order as an array.

* `CatalogueOptions` — a filter for selection and a filter for conditions.
* `CatalogueOptions.ofJson?` — options from a document; a member of the wrong shape is refused, and
  so is a name that is given twice.
-/

namespace EntityQuery

/-- The filters of all queries of a catalogue. -/
structure CatalogueOptions where
  select : PathFilter := {}
  conditions : PathFilter := {}
  deriving DecidableEq, Repr, Inhabited

namespace Json

/-- A document that is a string. -/
def asString? : Json → Option String
  | .string s => some s
  | _ => none

/-- A document that is a number of items. -/
def asCount? : Json → Option Nat
  | .integer i => if 0 ≤ i ∧ i < (2 ^ 64 : Nat) then some i.toNat else none
  | _ => none

/-- A document that is an array of strings. -/
def asStrings? : Json → Option (List String)
  | .array items => items.mapM asString?
  | _ => none

/-- A document that is null, or else has the given shape. -/
def asOption? {α : Type} (read : Json → Option α) : Json → Option (Option α)
  | .null => some none
  | j => (read j).map some

/-- Read a member of an object. A missing member has its default, and a name that is given twice is
refused. -/
def memberOr? {α : Type} (members : List (String × Json)) (name : String) (absent : α)
    (read : Json → Option α) : Option α :=
  match members.filter (·.1 == name) with
  | [] => some absent
  | [(_, j)] => read j
  | _ => none

end Json

/-- A path filter from a document. -/
def PathFilter.ofJson? : Json → Option PathFilter
  | .object members => do
    let included ← Json.memberOr? members "include" [] Json.asStrings?
    let excluded ← Json.memberOr? members "exclude" [] Json.asStrings?
    let excludedOwners ← Json.memberOr? members "excluded_owners" [] Json.asStrings?
    let maxDepth ← Json.memberOr? members "max_depth" none (Json.asOption? Json.asCount?)
    return ⟨included, excluded, excludedOwners, maxDepth⟩
  | .array items =>
    match items with
    | [] => some {}
    | [a] => do return ⟨← a.asStrings?, [], [], none⟩
    | [a, b] => do return ⟨← a.asStrings?, ← b.asStrings?, [], none⟩
    | [a, b, c] => do return ⟨← a.asStrings?, ← b.asStrings?, ← c.asStrings?, none⟩
    | [a, b, c, d] => do
      return ⟨← a.asStrings?, ← b.asStrings?, ← c.asStrings?, ← Json.asOption? Json.asCount? d⟩
    | _ => none
  | _ => none

/-- Options from a document. -/
def CatalogueOptions.ofJson? : Json → Option CatalogueOptions
  | .object members => do
    let select ← Json.memberOr? members "select" {} PathFilter.ofJson?
    let conditions ← Json.memberOr? members "conditions" {} PathFilter.ofJson?
    return ⟨select, conditions⟩
  | .array items =>
    match items with
    | [] => some {}
    | [a] => do return ⟨← PathFilter.ofJson? a, {}⟩
    | [a, b] => do return ⟨← PathFilter.ofJson? a, ← PathFilter.ofJson? b⟩
    | _ => none
  | _ => none

end EntityQuery
