import EntityQuery.Value.Kind

/-!
# Stored data

A `Datum` is what a member of an entity stores. A scalar datum travels as a `Value` of the member's
kind.

* `Datum` — stored data of every type.
* `ScalarType` — the types of scalar data: the kinds, wide integers and single characters.
* `ScalarType.encode`, `ScalarType.decode?` — from data to values and back.
* `ScalarType.untouched` — the datum of an untouched member.
-/

namespace EntityQuery

/-- Stored data. Integers of all widths are numbers, and a variant of an enumeration is its stored
name. -/
inductive Datum where
  | bool (b : Bool)
  | integer (i : Int)
  | float (x : Binary64)
  | decimal (d : Decimal)
  | char (c : Char)
  | text (s : String)
  | date (d : Date)
  | dateTime (x : DateTime)
  | timestamp (x : DateTime)
  | time (t : TimeOfDay)
  | uuid (u : Uuid)
  | variant (name : String)
  | absent
  | present (d : Datum)
  | list (items : List Datum)
  | entity (members : List Datum)
  deriving Inhabited

/-- The types of scalar data. Wide integers have 128 bits. -/
inductive ScalarType where
  | ofKind (k : Kind)
  | wide (signed : Bool)
  | char
  deriving DecidableEq, Repr

namespace ScalarType

/-- The kind under which data of a type travels. Wide integers share the kinds of 64 bits, and a
character is a text. -/
def kind : ScalarType → Kind
  | .ofKind k => k
  | .wide signed => if signed then .signed .w64 else .unsigned .w64
  | .char => .text

/-- The datum of an untouched member. `initial` tells the variant with which an enumeration of a
name and some variants starts. -/
def untouched (initial : String → List String → String) : ScalarType → Datum
  | .wide _ => .integer 0
  | .char => .char '\x00'
  | .ofKind k =>
    match k with
    | .bool => .bool false
    | .signed _ | .unsigned _ => .integer 0
    | .single | .double => .float .zero
    | .decimal => .decimal .zero
    | .text => .text ""
    | .date => .date .epoch
    | .dateTime => .dateTime .epoch
    | .timestamp => .timestamp .epoch
    | .time => .time .midnight
    | .uuid => .uuid .nil
    | .enum name variants => .variant (initial name variants)

/-- An integer as a value; one outside 64 bits becomes null. -/
def integerValue (signed : Bool) (i : Int) : Value :=
  if signed then if Kind.fitsSigned .w64 i then .int (Int64.ofInt i) else .null
  else if Kind.fitsUnsigned .w64 i then .uint (UInt64.ofNat i.toNat) else .null

/-- A scalar datum as a value. -/
def encode : ScalarType → Datum → Value
  | .ofKind (.signed _), .integer i | .wide true, .integer i => integerValue true i
  | .ofKind (.unsigned _), .integer i | .wide false, .integer i => integerValue false i
  | _, .bool b => .bool b
  | _, .float x => .float x
  | _, .decimal d => .decimal d
  | _, .char c => .text (String.singleton c)
  | _, .text s => .text s
  | _, .date d => .date d
  | _, .dateTime x => .dateTime x
  | _, .timestamp x => .timestamp x
  | _, .time t => .time t
  | _, .uuid u => .uuid u
  | _, .variant name => .enum name
  | _, _ => .null

/-- The character of a text with one character. -/
def singleChar? (s : String) : Option Char :=
  match s.toList with
  | [c] => some c
  | _ => none

/-- The datum that a value denotes, if there is one. Integers of both variants are read, and an
enumeration reads texts too. -/
def decode? : ScalarType → Value → Option Datum
  | .wide signed, v =>
    (Kind.integer? v).bind fun i => if signed || decide (0 ≤ i) then some (.integer i) else none
  | .char, .text s => (singleChar? s).map .char
  | .char, _ => none
  | .ofKind k, v =>
    match k, v with
    | .bool, .bool b => some (.bool b)
    | .signed w, v =>
      (Kind.integer? v).bind fun i => if Kind.fitsSigned w i then some (.integer i) else none
    | .unsigned w, v =>
      (Kind.integer? v).bind fun i => if Kind.fitsUnsigned w i then some (.integer i) else none
    | .single, v =>
      match Kind.single.coerce? v with
      | some (.float x) => some (.float x.toSingle)
      | _ => none
    | .double, v =>
      match Kind.double.coerce? v with
      | some (.float x) => some (.float x)
      | _ => none
    | .decimal, .decimal d => some (.decimal d)
    | .text, .text s => some (.text s)
    | .date, .date d => some (.date d)
    | .dateTime, .dateTime x => some (.dateTime x)
    | .timestamp, .timestamp x => some (.timestamp x)
    | .time, .time t => some (.time t)
    | .uuid, .uuid u => some (.uuid u)
    | .enum _ variants, v =>
      v.asText?.bind fun name => if variants.contains name then some (.variant name) else none
    | _, _ => none

/-- No scalar datum is read from null. -/
@[simp] theorem decode?_null (t : ScalarType) : t.decode? .null = none := by
  cases t with
  | ofKind k => cases k <;> rfl
  | wide signed => rfl
  | char => rfl

end ScalarType

end EntityQuery
