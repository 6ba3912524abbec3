import EntityQuery.Toml.Draft
import EntityQuery.Toml.Moment

/-!
# TOML documents

A document is a row of lines: headers of tables, and keys with values. Arrays and inline tables may
stand inside each other up to a fixed depth.

* `Toml.scanValue` — one value.
* `Toml.Line`, `Toml.scanLines` — the lines of a document.
* `Toml.ofLines?` — the table that lines make up.
* `Toml.ofText?` — the table of a document.
-/

namespace EntityQuery

namespace Toml

/-! ### Values -/

/-- A truth value. -/
def scanBool : Scan Toml :=
  (do Scan.literal "true".toList; return .bool true) <|>
    (do Scan.literal "false".toList; return .bool false)

/-- An array of values. A comma may follow the last one, and the values may stand on several lines. -/
def scanArray (item : Scan Toml) : Scan Toml := do
  mark '['
  let spaced : Scan Toml := do blankLines; let v ← item; blankLines; return v
  let items ← (do let items ← Scan.separated (mark ',') spaced; mark ',' <|> pure (); return items) <|>
    pure []
  blankLines
  mark ']'
  return .array items

/-- A key with a value. -/
def scanEntry (item : Scan Toml) : Scan (List String × Toml) := do
  let names ← key
  mark '='
  spaces
  return (names, ← item)

/-- The table of keys with values. -/
def ofEntries? (entries : List (List String × Toml)) : Option Toml :=
  (entries.foldlM (fun table (names, v) => Draft.assign names v .header table) []).map fun table =>
    .table (Draft.finishAll table)

/-- A table inside a line. -/
def scanInlineTable (item : Scan Toml) : Scan Toml := do
  mark '\x7b'
  let entry : Scan (List String × Toml) := do let e ← scanEntry item; spaces; return e
  let entries ← Scan.separated (mark ',') entry <|> pure []
  spaces
  mark '\x7d'
  match ofEntries? entries with
  | some t => return t
  | none => Scan.refuse

/-- A value in which arrays and inline tables nest to the given depth. -/
def scanValue : Nat → Scan Toml
  | 0 => .text <$> quotedText <|> scanMoment <|> scanNumber <|> scanBool
  | depth + 1 =>
    .text <$> quotedText <|> scanMoment <|> scanNumber <|> scanBool <|>
      scanArray (scanValue depth) <|> scanInlineTable (scanValue depth)

/-! ### Lines -/

/-- A line of a document. -/
inductive Line where
  | blank
  | entry (names : List String) (v : Toml)
  | header (path : List String)
  | elementHeader (path : List String)

/-- A line, with blanks and a comment after it. -/
def scanLine : Scan Line := do
  spaces
  let line : Line ←
    (do Scan.literal ['[', '[']; let path ← key; Scan.literal [']', ']']; return .elementHeader path) <|>
    (do mark '['; let path ← key; mark ']'; return .header path) <|>
    (do let (names, v) ← scanEntry (scanValue nesting); return .entry names v) <|>
    pure .blank
  spaces
  comment <|> pure ()
  return line

/-- All lines. A byte order mark may stand before the first one. -/
def scanLines : Scan (List Line) := do
  mark '\uFEFF' <|> pure ()
  Scan.separated newline scanLine

/-! ### Documents -/

/-- The tables so far, and the path of the table that the next lines belong to. -/
abbrev Opened := List String × Draft.Entries

/-- Change the table at the end of the way to a header's table. -/
def atHeader (path : List String) (change : String → Draft.Entries → Option Draft.Entries)
    (tables : Draft.Entries) : Option Opened :=
  match path.getLast? with
  | none => none
  | some last =>
    (Draft.alter .path (fun _ => change last) path.dropLast .header tables).map (path, ·)

/-- What a line does. -/
def addLine (opened : Opened) : Line → Option Opened
  | .blank => some opened
  | .entry names v =>
    (Draft.alter .path (Draft.assign names v) opened.1 .header opened.2).map (opened.1, ·)
  | .header path => atHeader path Draft.openTable opened.2
  | .elementHeader path => atHeader path Draft.openElement opened.2

/-- The table that lines make up. -/
def ofLines? (lines : List Line) : Option Toml :=
  (lines.foldlM addLine ([], [])).map fun opened => .table (Draft.finishAll opened.2)

/-- The table of a document. A document in the form of a moment has none. -/
def ofText? (document : String) : Option Toml := do
  let lines ← scanLines.run? document.toList
  match ← readMoments? (← ofLines? lines) with
  | .table entries => return .table entries
  | _ => none

end Toml

end EntityQuery
