import EntityQuery.Toml.Basic

/-!
# Tables in the making

The lines of a document fill a tree of tables. A name is given a value once. A table may be opened by
a header once, and before that by the way to other tables; the tables on the way of a dotted key are
closed to headers, and the ones opened by a header to dotted keys.

* `Draft` — a value, a table with its origin, or an array of tables of which the last one is open.
* `Draft.alter` — change the table at the end of a path.
* `Draft.assign`, `Draft.openTable`, `Draft.openElement` — what a line with a value, a header, and a
  header of an array do.
* `Draft.finish` — the finished value.
-/

namespace EntityQuery

/-- What a table was first opened by: its own header, the path of another header, or a dotted key. -/
inductive Origin where
  | header
  | path
  | dotted
  deriving DecidableEq, Repr

/-- A part of a document that may still grow. -/
inductive Draft where
  | value (v : Toml)
  | table (origin : Origin) (entries : List (String × Draft))
  | tables (earlier : List Toml) (last : List (String × Draft))

namespace Draft

/-- What has a name in a table. -/
abbrev Entries := List (String × Draft)

mutual

/-- The finished value. -/
def finish : Draft → Toml
  | .value v => v
  | .table _ entries => .table (finishAll entries)
  | .tables earlier last => .array (earlier ++ [.table (finishAll last)])

/-- The finished entries of a table. -/
def finishAll : Entries → List (String × Toml)
  | [] => []
  | (name, d) :: entries => (name, d.finish) :: finishAll entries

end

/-- Change the table at the end of a path, which may be the path of a header or of a dotted key.
Missing tables on the way are opened. -/
def alter (way : Origin) (change : Origin → Entries → Option Entries) :
    List String → Origin → Entries → Option Entries
  | [], origin, entries => change origin entries
  | name :: path, _, entries =>
    match entries.lookup name with
    | none => (alter way change path way []).map fun inner => putEntry name (.table way inner) entries
    | some (.value _) => none
    | some (.tables earlier last) =>
      (alter way change path .header last).map fun last => putEntry name (.tables earlier last) entries
    | some (.table origin inner) =>
      if way = .dotted ∧ origin = .header then none
      else (alter way change path origin inner).map fun inner => putEntry name (.table origin inner) entries

/-- Give a new name a value. -/
def insert (name : String) (v : Toml) (entries : Entries) : Option Entries :=
  if (entries.lookup name).isSome then none else some (putEntry name (.value v) entries)

/-- Give the dotted key of a table a value. The tables on its way belong to dotted keys alone. -/
def assign (key : List String) (v : Toml) (origin : Origin) (entries : Entries) : Option Entries :=
  match key.getLast? with
  | none => none
  | some name =>
    if key.dropLast.isEmpty then insert name v entries
    else
      alter .dotted
        (fun origin inner => if origin = .dotted then insert name v inner else none)
        key.dropLast origin entries

/-- Open the table of a header. A table that lay on the way of another header comes last now. -/
def openTable (name : String) (entries : Entries) : Option Entries :=
  match entries.lookup name with
  | none => some (putEntry name (.table .header []) entries)
  | some (.table .path inner) =>
    some (entries.filter (·.1 ≠ name) ++ [(name, .table .header inner)])
  | some _ => none

/-- Open a new table at the end of an array of tables. -/
def openElement (name : String) (entries : Entries) : Option Entries :=
  match entries.lookup name with
  | none => some (putEntry name (.tables [] []) entries)
  | some (.tables earlier last) =>
    some (putEntry name (.tables (earlier ++ [.table (finishAll last)]) []) entries)
  | some _ => none

end Draft

end EntityQuery
