import EntityQuery.Value.Text

/-!
# JSON texts

* `Json` — a JSON document.
* `Json.text` — its compact text.
* `Json.sorted` — the document with the members of every object in the order of their names.
* `Value.toJson` — a value as a document: numbers that are no finite ones become null, decimal
  numbers and temporal values become strings.
-/

namespace EntityQuery

/-- A JSON document. -/
inductive Json where
  | null
  | bool (b : Bool)
  | integer (i : Int)
  | float (x : Binary64)
  | string (s : String)
  | array (items : List Json)
  | object (members : List (String × Json))
  deriving Inhabited

/-- Floating-point numbers keep a point or an exponent part. The exponent part begins below 10^-5
and at 10^16; it always has a sign. A half goes to the even digit. -/
def jsonLayout : Layout where
  round := divHalfEven
  positional e := -5 ≤ e && e < 16
  wholeSuffix := ".0"
  exponentText e := String.ofList ((if e < 0 then '-' else '+') :: Nat.toDigits 10 e.natAbs)
  nan := "null"
  infinity _ := "null"

namespace Json

/-- The written form of one character of a string: quotes, backslashes and controls are escaped. -/
def escapeChar (c : Char) : List Char :=
  if c = '"' then ['\\', '"']
  else if c = '\\' then ['\\', '\\']
  else if c = '\n' then ['\\', 'n']
  else if c = '\r' then ['\\', 'r']
  else if c = '\t' then ['\\', 't']
  else if c.toNat = 8 then ['\\', 'b']
  else if c.toNat = 12 then ['\\', 'f']
  else if c.toNat < 32 then ['\\', 'u'] ++ Uuid.hexDigits 4 c.toNat
  else [c]

/-- The written form of a string. -/
def stringText (s : String) : String := "\"" ++ String.ofList (s.toList.flatMap escapeChar) ++ "\""

mutual

/-- The compact text of a document. -/
def text : Json → String
  | .null => "null"
  | .bool b => if b then "true" else "false"
  | .integer i => integerText i
  | .float x => jsonLayout.render x
  | .string s => stringText s
  | .array items => "[" ++ ",".intercalate (itemTexts items) ++ "]"
  | .object members => "\x7b" ++ ",".intercalate (memberTexts members) ++ "\x7d"

/-- The texts of the items of an array. -/
def itemTexts : List Json → List String
  | [] => []
  | j :: js => text j :: itemTexts js

/-- The texts of the members of an object. -/
def memberTexts : List (String × Json) → List String
  | [] => []
  | (name, j) :: members => (stringText name ++ ":" ++ text j) :: memberTexts members

end

mutual

/-- The document with the members of every object in the order of their names. -/
def sorted : Json → Json
  | .array items => .array (sortedItems items)
  | .object members =>
    .object ((sortedMembers members).mergeSort fun a b => Ord.compare a.1 b.1 != .gt)
  | j => j

/-- The items of an array, each sorted. -/
def sortedItems : List Json → List Json
  | [] => []
  | j :: js => sorted j :: sortedItems js

/-- The members of an object in their order, each sorted. -/
def sortedMembers : List (String × Json) → List (String × Json)
  | [] => []
  | (name, j) :: members => (name, sorted j) :: sortedMembers members

end

/-- The member of an object, the last one of its name. -/
def member? (name : String) : Json → Option Json
  | .object members => members.reverse.lookup name
  | _ => none

end Json

namespace Value

mutual

/-- A value as a JSON document. -/
def toJson : Value → Json
  | .null => .null
  | .bool b => .bool b
  | .int i => .integer i.toInt
  | .uint n => .integer n.toNat
  | .float x => if x.isFinite then .float x else .null
  | .dateTime x => .string x.isoText
  | .timestamp x => .string (x.isoText ++ "Z")
  | .text s => .string s
  | .list items => .array (itemsToJson items)
  | .object fields => .object (fieldsToJson fields)
  | v => .string v.scalarText

/-- The items of a list as documents. -/
def itemsToJson : List Value → List Json
  | [] => []
  | v :: vs => toJson v :: itemsToJson vs

/-- The members of a record as documents. -/
def fieldsToJson : List (String × Value) → List (String × Json)
  | [] => []
  | (name, v) :: fields => (name, toJson v) :: fieldsToJson fields

end

/-- The items of a list become the items of an array. -/
theorem itemsToJson_eq_map (vs : List Value) : itemsToJson vs = vs.map toJson := by
  induction vs with
  | nil => rfl
  | cons v vs ih => rw [itemsToJson, ih, List.map_cons]

end Value

/-- A record as a JSON document. -/
def Record.toJson (r : Record) : Json := (Value.object r).toJson

end EntityQuery
