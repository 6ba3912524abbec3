import EntityQuery.Value.Basic
import EntityQuery.Number.Shortest
import EntityQuery.Text.Quoted

/-!
# Texts of values

* `Value.display` — a value as an expression shows it: texts are quoted, lists stand in brackets.
* `Value.plain` — a value for people: texts without quotes, null as nothing.
* `displayLayout` — floating-point numbers have no exponent part.
-/

namespace EntityQuery

/-- Floating-point numbers are shown without an exponent part, and whole ones without a point. A
half goes up. -/
def displayLayout : Layout where
  round := divHalfUp
  positional _ := true
  wholeSuffix := ""
  exponentText _ := ""
  nan := "NaN"
  infinity negative := if negative then "-inf" else "inf"

/-- The digits of an integer after its sign. -/
def integerText (i : Int) : String := String.ofList (integerDigits i)

namespace Value

/-- The text of a value that is neither text, null, a list nor an object. -/
def scalarText : Value → String
  | .bool b => if b then "true" else "false"
  | .int i => integerText i.toInt
  | .uint n => integerText n.toNat
  | .float x => displayLayout.render x
  | .decimal d => d.text
  | .date d => d.text
  | .dateTime x => x.text
  | .timestamp x => x.isoText ++ "+00:00"
  | .time t => t.text
  | .uuid u => u.text
  | .enum name => name
  | _ => ""

mutual

/-- A value as an expression shows it. -/
def display : Value → String
  | .null => "null"
  | .text s => quoted s
  | .list items => "[" ++ ", ".intercalate (displayItems items) ++ "]"
  | .object fields => "\x7b " ++ ", ".intercalate (displayFields fields) ++ " \x7d"
  | v => v.scalarText

/-- The items of a list, each as an expression shows it. -/
def displayItems : List Value → List String
  | [] => []
  | v :: vs => display v :: displayItems vs

/-- The members of a record, each as name and value. -/
def displayFields : List (String × Value) → List String
  | [] => []
  | (name, v) :: fields => (name ++ " = " ++ display v) :: displayFields fields

end

mutual

/-- A value for people: nothing is quoted and null is empty. -/
def plain : Value → String
  | .null => ""
  | .text s => s
  | .list items => ", ".intercalate (plainItems items)
  | v => v.display

/-- The items of a list, each for people. -/
def plainItems : List Value → List String
  | [] => []
  | v :: vs => plain v :: plainItems vs

end

/-- The items of a list are shown one by one. -/
theorem displayItems_eq_map (vs : List Value) : displayItems vs = vs.map display := by
  induction vs with
  | nil => rfl
  | cons v vs ih => rw [displayItems, ih, List.map_cons]

/-- The items of a list are shown for people one by one. -/
theorem plainItems_eq_map (vs : List Value) : plainItems vs = vs.map plain := by
  induction vs with
  | nil => rfl
  | cons v vs ih => rw [plainItems, ih, List.map_cons]

end Value

/-- A record as an expression shows it. -/
def Record.display (r : Record) : String := (Value.object r).display

end EntityQuery
