import EntityQuery.Toml.Lexeme

/-!
# Moments in the form of tables

A moment can also be written as a table. The first name of such a table is `Toml.momentName`, and what
stands under it is the text of the moment; other entries do not count.

* `Toml.isMoment` — which texts are moments. Here the hour may be 24, and an offset as long as a day.
* `Toml.readMoments?` — a value in which no table is in the form of a moment any more.

Main statement: a table in the form of a moment is read as the moment of its text, whatever follows
(`readMoments?_momentForm`). It has no reading if that text is no moment.
-/

namespace EntityQuery

namespace Toml

/-- The name that marks a table as the form of a moment. -/
def momentName : String := "$__toml_private_datetime"

/-- An offset of at most a day. -/
def wideOffset : Scan Unit :=
  mark 'Z' <|> mark 'z' <|> do
    mark '+' <|> mark '-'
    let hours ← Scan.number 2 2
    mark ':'
    let minutes ← Scan.number 2 2
    Scan.guardThat (hours * 60 + minutes ≤ 24 * 60)

/-- Whether a text is a moment. -/
def isMoment (s : String) : Bool := ((momentOf 24 wideOffset).run? s.toList).isSome

/-- What stands for the moment in a table of that form; other tables have nothing of the kind. -/
def momentForm? : List (String × Toml) → Option Toml
  | [] => none
  | (name, v) :: _ => if name = momentName then some v else none

/-- The moment of a text. -/
def toMoment? : Toml → Option Toml
  | .text s => if isMoment s then some (.moment s) else none
  | _ => none

mutual

/-- The value in which tables in the form of moments are moments. -/
def readMoments? : Toml → Option Toml
  | .array items => (readAllMoments? items).map .array
  | .table entries =>
    match momentForm? entries with
    | some v => toMoment? v
    | none => (readEntryMoments? entries).map .table
  | v => some v

/-- The items of an array, each with its moments. -/
def readAllMoments? : List Toml → Option (List Toml)
  | [] => some []
  | v :: items => do
    let v ← readMoments? v
    return v :: (← readAllMoments? items)

/-- The entries of a table, each with its moments. -/
def readEntryMoments? : List (String × Toml) → Option (List (String × Toml))
  | [] => some []
  | (name, v) :: entries => do
    let v ← readMoments? v
    return (name, v) :: (← readEntryMoments? entries)

end

/-- A table in the form of a moment is the moment of its text, whatever follows. -/
theorem readMoments?_momentForm (v : Toml) (entries : List (String × Toml)) :
    readMoments? (.table ((momentName, v) :: entries)) = toMoment? v := by
  simp [readMoments?, momentForm?]

end Toml

end EntityQuery
