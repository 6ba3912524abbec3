import EntityQuery.Value.Basic

/-!
# Edits of records as data

A `RecordEdit` is one call on a record, or the collection of a new one. A run is a list of edits.

* `Record.getThenInsert`, `Record.getThenErase` — an insertion and a removal, with the value that the
  member had before.
* `RecordEdit` — calls as data.
* `Record.perform`, `Record.run` — the outcome of an edit, and the record after a list of them.
* `Record.getThenInsert_eq`, `Record.getThenErase_eq` — what the two calls give.
-/

namespace EntityQuery

/-- A call on a record, or a record that is collected from pairs and takes its place. -/
inductive RecordEdit where
  | insert (name : String) (value : Value)
  | erase (name : String)
  | collect (pairs : List (String × Value))

namespace Record

/-- Give a member a value, and tell the one that it had before. -/
def getThenInsert : Record → String → Value → Option Value × Record
  | [], name, value => (none, [(name, value)])
  | (n, v) :: fields, name, value =>
    if n = name then (some v, (n, value) :: fields)
    else
      let (old?, fields) := getThenInsert fields name value
      (old?, (n, v) :: fields)

/-- Remove a member, and tell the value that it had. -/
def getThenErase : Record → String → Option Value × Record
  | [], _ => (none, [])
  | (n, v) :: fields, name =>
    if n = name then (some v, fields)
    else
      let (old?, fields) := getThenErase fields name
      (old?, (n, v) :: fields)

/-- The outcome of an edit: the value that a member had before, and the record after it. -/
def perform (r : Record) : RecordEdit → Option Value × Record
  | .insert name value => r.getThenInsert name value
  | .erase name => r.getThenErase name
  | .collect pairs => (none, ofPairs pairs)

/-- The record after a list of edits. -/
def run (r : Record) (edits : List RecordEdit) : Record := edits.foldl (fun r e => (r.perform e).2) r

theorem getThenInsert_eq (r : Record) (name : String) (value : Value) :
    r.getThenInsert name value = (r.get? name, r.insert name value) := by
  induction r with
  | nil => rfl
  | cons field r ih =>
    rw [getThenInsert, get?, insert, ih]
    split <;> rfl

theorem getThenErase_eq (r : Record) (name : String) :
    r.getThenErase name = (r.get? name, r.erase name) := by
  induction r with
  | nil => rfl
  | cons field r ih =>
    rw [getThenErase, get?, erase, ih]
    split <;> rfl

end Record

end EntityQuery
