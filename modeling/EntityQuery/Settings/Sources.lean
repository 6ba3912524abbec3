import EntityQuery.Settings.Tree
import EntityQuery.Text.Scan
import EntityQuery.Toml.Document

/-!
# Sources of settings

Settings come from a document and from the environment of a program. Together they make up one tree,
in which what comes later wins.

* `SettingStep.ofText` — the path that a name stands for.
* `SettingTree.ofDocument` — the settings of a document, whose names may be paths.
* `SettingTree.withVariable` — an environment variable, whose name begins with the name of the
  program and has two underscores between the names of its path.
-/

namespace EntityQuery

/-! ### Paths as names -/

namespace SettingStep

/-- Characters of the names in a path. -/
def isLetter (c : Char) : Bool := c.isAlphanum || c = '_' || c = '-' || c = ' '

/-- Read a name. -/
def scanName : Scan SettingStep := do
  let name ← Scan.while_ isLetter
  Scan.guardThat !name.isEmpty
  return .name (String.ofList name)

/-- Skip spaces and tabs. -/
def scanGap : Scan (List Char) := Scan.while_ fun c => c = ' ' || c = '\t'

/-- Read a place in brackets: an integer of 64 bits, maybe with spaces around it. -/
def scanPlace : Scan SettingStep := do
  Scan.literal ['[']
  let _ ← scanGap
  let negative ← Scan.startsWith '-'
  if negative then Scan.literal ['-']
  let n ← Scan.wholeNumber
  let _ ← scanGap
  Scan.literal [']']
  Scan.guardThat (n < 2 ^ 63 || negative && n == 2 ^ 63)
  return .place (if negative then -(n : Int) else n)

/-- Read a path: a name, and then names after points and places in brackets. -/
def scanPath : Scan (List SettingStep) := do
  let first ← scanName
  let others ← Scan.many ((do Scan.literal ['.']; scanName) <|> scanPlace)
  return first :: others

/-- The path that a name stands for. A name that is no path stands for itself. -/
def ofText (name : String) : List SettingStep :=
  (Scan.run? scanPath name.toList).getD [.name name]

end SettingStep

/-! ### Documents and variables -/

namespace SettingTree

/-- A tree with a setting at the end of the path that a name stands for. -/
def set (tree : SettingTree) (name : String) (s : Setting) : SettingTree :=
  (s.assign (SettingStep.ofText name) (some (.group tree))).entries

/-- The settings of a document. -/
def ofDocument (document : Toml) : SettingTree :=
  document.entries.foldl (fun tree (name, v) => tree.set name (.ofToml v)) []

/-- Two underscores stand for a point. -/
def pointed : List Char → List Char
  | '_' :: '_' :: cs => '.' :: pointed cs
  | c :: cs => c :: pointed cs
  | [] => []

/-- Settings with an environment variable of a program. Variables of other programs do not count. -/
def withVariable (program : String) (tree : SettingTree) (entry : String × String) :
    SettingTree :=
  let start := (smallName program).toList ++ ['_', '_']
  let name := (smallName entry.1).toList
  if start.isPrefixOf name then
    tree.set (String.ofList (pointed (name.drop start.length))) (.value (.text entry.2))
  else tree

end SettingTree

end EntityQuery
