import EntityQuery.Settings.Basic
import EntityQuery.Settings.Sources

/-!
# Reading settings

Settings stand under the name `query`, by name in a group or in order in a list. Values of other
types are converted if they denote a number or a truth value.

* `Toml.asCount?`, `Toml.asSwitch?` — the number and the truth value that a value denotes.
* `Settings.ofSetting?` — the settings of a group or of a list.
* `Settings.ofText` — the settings of a document.
* `Settings.load` — the settings of a program, from its file and its environment.
-/

namespace EntityQuery

/-- Why there are no settings. -/
inductive SettingsError where
  | malformed
  | unreadable
  | noPageSize
  deriving DecidableEq, Repr

/-- The reason in words. -/
def SettingsError.message : SettingsError → String
  | .malformed => "the document is malformed"
  | .unreadable => "query configuration could not be loaded"
  | .noPageSize => "query.default_page_size must be at least 1"

/-! ### Conversion -/

/-- The truth value of a word. -/
def switchWord? (s : String) : Option Bool :=
  match String.ofList (s.toList.map Char.toLower) with
  | "true" | "on" | "yes" => some true
  | "false" | "off" | "no" => some false
  | _ => none

namespace Toml

/-- The greatest number of items. -/
def mostItems : Nat := 2 ^ 64 - 1

/-- The number of items that a floating-point number is nearest to, halves upwards. -/
def nearestCount (x : Binary64) : Nat :=
  if x.isNaN || x.isNegative then 0
  else if x.isFinite then min x.roundMagnitude mostItems
  else mostItems

/-- The number of items that a value denotes; words count as one and zero. -/
def asCount? : Toml → Option Nat
  | .integer i => if 0 ≤ i.toInt then some i.toInt.toNat else none
  | .float x => some (nearestCount x)
  | .bool b => some (if b then 1 else 0)
  | .text s =>
    match switchWord? s with
    | some b => some (if b then 1 else 0)
    | none => (readUnsigned? s.toList).filter (· ≤ mostItems)
  | _ => none

/-- The truth value that a value denotes; zero is false, other numbers are true. -/
def asSwitch? : Toml → Option Bool
  | .bool b => some b
  | .integer i => some (i != 0)
  | .float x => some (!x.numEq .zero)
  | .text s => if s = "1" then some true else if s = "0" then some false else switchWord? s
  | _ => none

end Toml

/-! ### Settings -/

namespace Settings

/-- A member of settings, by its name in a group and by its place in a list. -/
def member? (s : Setting) (name : String) (place : Nat) : Option Setting :=
  match s with
  | .group entries => entries.lookup name
  | .list items => items[place]?
  | _ => none

/-- The number of items that a setting denotes. -/
def count? : Setting → Option Nat
  | .value v => v.asCount?
  | _ => none

/-- The number of items that a setting denotes, if it is not vacant. -/
def limit? : Setting → Option (Option Nat)
  | .vacant => some none
  | s => (count? s).map some

/-- The truth value that a setting denotes. -/
def switch? : Setting → Option Bool
  | .value v => v.asSwitch?
  | _ => none

/-- A member that may be missing. -/
def read? {α : Type} (absent : α) (convert? : Setting → Option α) : Option Setting → Option α
  | none => some absent
  | some s => convert? s

/-- Settings from a group or a list. -/
def ofSetting? (s : Setting) : Option Settings :=
  match s with
  | .group _ | .list _ => do
    let size ← read? 20 count? (member? s "default_page_size" 0)
    let depth ← read? none limit? (member? s "max_depth" 1)
    let patterns ← read? true switch? (member? s "pattern_operators" 2)
    return ⟨size, depth, patterns⟩
  | _ => none

/-- The settings in a tree of settings. Without a setting for queries there are the default ones. -/
def ofTree (tree : SettingTree) : Except SettingsError Settings :=
  match tree.lookup "query" with
  | none => .ok {}
  | some setting =>
    match ofSetting? setting with
    | none => .error .unreadable
    | some s => if s.defaultPageSize = 0 then .error .noPageSize else .ok s

/-- The settings of a document. -/
def ofText (document : String) : Except SettingsError Settings :=
  match Toml.ofText? document with
  | none => .error .malformed
  | some t => ofTree (.ofDocument t)

/-- The settings of a program. Its environment goes before its file, and a malformed file does not
count. -/
def load (program : String) (file? : Option String) (environment : List (String × String)) :
    Except SettingsError Settings :=
  let tree := ((file?.bind Toml.ofText?).map SettingTree.ofDocument).getD []
  ofTree (environment.foldl (SettingTree.withVariable program) tree)

/-- Settings that are read offer pages with at least one item. -/
theorem defaultPageSize_pos_of_ofTree {tree : SettingTree} {s : Settings}
    (h : ofTree tree = .ok s) : 0 < s.defaultPageSize := by
  unfold ofTree at h
  split at h
  · obtain rfl := Except.ok.inj h
    decide
  · split at h
    · exact nomatch h
    · split at h
      · exact nomatch h
      · obtain rfl := Except.ok.inj h
        omega

end Settings

end EntityQuery
