import EntityQuery.Number.Binary64

/-!
# TOML values

A `Toml` value is what a TOML document holds under a name.

* `Toml` — texts, numbers, truth values, moments, arrays and tables.
* `Toml.get?` — the value under a name of a table.
* `putEntry` — give a name of a table another content.
-/

namespace EntityQuery

/-- A value of a TOML document. A moment is a date, a time or both, as it is written. -/
inductive Toml where
  | text (s : String)
  | integer (i : Int64)
  | float (x : Binary64)
  | bool (b : Bool)
  | moment (written : String)
  | array (items : List Toml)
  | table (entries : List (String × Toml))
  deriving Inhabited

namespace Toml

/-- The entries of a table; other values have none. -/
def entries : Toml → List (String × Toml)
  | .table entries => entries
  | _ => []

/-- The value under a name of a table. -/
def get? (t : Toml) (name : String) : Option Toml := t.entries.lookup name

end Toml

/-- Give a name another content in its place, or a first one at the end. -/
def putEntry {α : Type} (name : String) (a : α) : List (String × α) → List (String × α)
  | [] => [(name, a)]
  | (other, old) :: entries =>
    if other = name then (name, a) :: entries else (other, old) :: putEntry name a entries

/-- A name has the content that it was given last. -/
theorem lookup_putEntry_self {α : Type} (name : String) (a : α) (entries : List (String × α)) :
    (putEntry name a entries).lookup name = some a := by
  induction entries with
  | nil => simp [putEntry]
  | cons entry entries ih =>
    obtain ⟨other, old⟩ := entry
    by_cases h : other = name
    · simp [putEntry, h]
    · have apart : (name == other) = false := beq_false_of_ne (Ne.symm h)
      simp [putEntry, h, List.lookup_cons, apart, ih]

/-- Other names keep their contents. -/
theorem lookup_putEntry_of_ne {α : Type} {name other : String} (h : other ≠ name) (a : α)
    (entries : List (String × α)) :
    (putEntry name a entries).lookup other = entries.lookup other := by
  induction entries with
  | nil => simp [putEntry, List.lookup_cons, beq_false_of_ne h]
  | cons entry entries ih =>
    obtain ⟨first, old⟩ := entry
    by_cases hf : first = name
    · subst hf
      simp [putEntry, List.lookup_cons, beq_false_of_ne h]
    · by_cases ho : other = first
      · subst ho
        simp [putEntry, hf]
      · simp [putEntry, hf, List.lookup_cons, beq_false_of_ne ho, ih]

end EntityQuery
