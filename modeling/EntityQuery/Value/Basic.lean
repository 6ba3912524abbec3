import EntityQuery.Number.Decimal
import EntityQuery.Calendar.DateTime
import EntityQuery.Text.Uuid
import EntityQuery.Text.Pieces

/-!
# Values and records

A `Value` is what a member of an entity holds, whatever its type. A `Record` is an entity flattened
into named values, in the order of its members.

* `Value` — null, scalars of every kind, lists and nested records.
* `Record.get?`, `Record.insert`, `Record.erase` — a record as an ordered map: a name that is
  inserted again keeps its place.
* `Record.getPath?` — the value at a dotted path; below null there is null.
* `Record.get?_insert_self`, `Record.get?_insert_of_ne` — what an insertion changes.
-/

namespace EntityQuery

/-- A dynamically typed value. -/
inductive Value where
  | null
  | bool (b : Bool)
  | int (i : Int64)
  | uint (n : UInt64)
  | float (x : Binary64)
  | decimal (d : Decimal)
  | text (s : String)
  | date (d : Date)
  | dateTime (x : DateTime)
  | timestamp (x : DateTime)
  | time (t : TimeOfDay)
  | uuid (u : Uuid)
  | enum (name : String)
  | list (items : List Value)
  | object (fields : List (String × Value))
  deriving Inhabited

/-- An ordered map from member names to values. -/
abbrev Record := List (String × Value)

namespace Value

/-- Whether a value is null. -/
def isNull : Value → Bool
  | .null => true
  | _ => false

/-- The characters of a text or of an enumeration's name. -/
def asText? : Value → Option String
  | .text s | .enum s => some s
  | _ => none

/-- The truth value, if it is one. -/
def asBool? : Value → Option Bool
  | .bool b => some b
  | _ => none

/-- The items of a list. -/
def asList? : Value → Option (List Value)
  | .list items => some items
  | _ => none

/-- The record of an object. -/
def asRecord? : Value → Option Record
  | .object fields => some fields
  | _ => none

/-- The name of the variant a value belongs to. -/
def variantName : Value → String
  | .null => "Null"
  | .bool _ => "Bool"
  | .int _ => "Int"
  | .uint _ => "UInt"
  | .float _ => "Float"
  | .decimal _ => "Decimal"
  | .text _ => "Text"
  | .date _ => "Date"
  | .dateTime _ => "DateTime"
  | .timestamp _ => "Timestamp"
  | .time _ => "Time"
  | .uuid _ => "Uuid"
  | .enum _ => "Enum"
  | .list _ => "List"
  | .object _ => "Object"

end Value

namespace Record

/-- The value of a member. -/
def get? : Record → String → Option Value
  | [], _ => none
  | (n, v) :: fields, name => if n = name then some v else get? fields name

/-- Give a member a value: a new member goes to the end, an old one keeps its place. -/
def insert : Record → String → Value → Record
  | [], name, value => [(name, value)]
  | (n, v) :: fields, name, value =>
    if n = name then (n, value) :: fields else (n, v) :: insert fields name value

/-- Remove a member. -/
def erase : Record → String → Record
  | [], _ => []
  | (n, v) :: fields, name => if n = name then fields else (n, v) :: erase fields name

/-- Insert pairs one after the other. -/
def insertAll (r : Record) (pairs : List (String × Value)) : Record :=
  pairs.foldl (fun r (name, value) => insert r name value) r

/-- The record of a list of pairs, inserted one after the other. -/
def ofPairs (pairs : List (String × Value)) : Record := insertAll [] pairs

/-- The member names, in order. -/
def names (r : Record) : List String := r.map (·.1)

/-- Whether there is a member of this name. -/
def contains (r : Record) (name : String) : Bool := (get? r name).isSome

/-- Follow the remaining segments of a path from a value. Below null there is null, below any other
value that is no object there is nothing. -/
def follow : List String → Value → Option Value
  | [], v => some v
  | s :: rest, .object fields => (get? fields s).bind (follow rest)
  | _ :: _, .null => some .null
  | _ :: _, _ => none

/-- The value at a dotted path. -/
def getPath? (r : Record) (path : String) : Option Value :=
  match segments path with
  | [] => none
  | first :: rest => (get? r first).bind (follow rest)

/-! ### The record as a map -/

/-- An inserted member has the inserted value. -/
@[simp] theorem get?_insert_self (r : Record) (name : String) (value : Value) :
    get? (insert r name value) name = some value := by
  induction r with
  | nil => simp [insert, get?]
  | cons field r ih =>
    simp only [insert]
    split
    · rename_i h
      simp [get?, h]
    · rename_i h
      simp [get?, h, ih]

/-- The other members keep their values. -/
theorem get?_insert_of_ne {r : Record} {name other : String} {value : Value} (h : name ≠ other) :
    get? (insert r name value) other = get? r other := by
  induction r with
  | nil => simp [insert, get?, h]
  | cons field r ih =>
    simp only [insert]
    split
    · rename_i hn
      simp [get?, hn, h]
    · simp only [get?, ih]

/-- An insertion adds a new name at the end and leaves the names of an old member. -/
theorem names_insert (r : Record) (name : String) (value : Value) :
    names (insert r name value) = if name ∈ names r then names r else names r ++ [name] := by
  induction r with
  | nil => simp [insert, names]
  | cons field r ih =>
    simp only [names] at ih ⊢
    by_cases h : field.1 = name
    · simp [insert, h]
    · by_cases hm : name ∈ r.map (·.1)
      · simp_all [insert]
      · simp_all [insert, Ne.symm h]

end Record

end EntityQuery
