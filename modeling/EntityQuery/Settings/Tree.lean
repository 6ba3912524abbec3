import EntityQuery.Toml.Basic

/-!
# Trees of settings

A `Setting` is what has been set so far: a value, a group of named settings, or a list of settings by
place. Names do not distinguish capital and small letters, and what is set later wins.

* `Setting`, `SettingStep` — settings, and the steps of the paths that lead to them.
* `Setting.ofToml` — the settings that a value of a document stands for.
* `Setting.merge` — a setting over an older one.
* `Setting.reach` — a list that is long enough for a place.
* `Setting.assign` — a setting at the end of a path.
* `lookup_assign_name`, `getElem?_assign_place` — what was set last is found.
-/

namespace EntityQuery

/-- A setting. In a list the places between the ones that are set are vacant. -/
inductive Setting where
  | vacant
  | value (v : Toml)
  | group (entries : List (String × Setting))
  | list (items : List Setting)

/-- A tree of settings. -/
abbrev SettingTree := List (String × Setting)

/-- A step of a path: the name of a setting in a group, or a place in a list, counted from its end
if it is negative. -/
inductive SettingStep where
  | name (name : String)
  | place (place : Int)
  deriving DecidableEq, Repr

/-! ### Names -/

/-- The small form of a letter. Of the letters beyond ASCII only the Kelvin sign has a small form
among the letters of names. -/
def smallLetter (c : Char) : Char := if c = '\u212a' then 'k' else c.toLower

/-- A name in small letters. -/
def smallName (name : String) : String := name.map smallLetter

namespace Setting

/-- The settings of a group; other settings have none. -/
def entries : Setting → SettingTree
  | .group entries => entries
  | _ => []

/-- The settings of a list; other settings have none. -/
def items : Setting → List Setting
  | .list items => items
  | _ => []

mutual

/-- The settings that a value of a document stands for. -/
def ofToml : Toml → Setting
  | .table entries => .group (ofEntries entries)
  | .array items => .list (ofItems items)
  | v => .value v

/-- The settings of a table. -/
def ofEntries : List (String × Toml) → SettingTree
  | [] => []
  | (name, v) :: entries => (name, ofToml v) :: ofEntries entries

/-- The settings of an array. -/
def ofItems : List Toml → List Setting
  | [] => []
  | v :: items => ofToml v :: ofItems items

end

/-! ### Merging -/

mutual

/-- A setting over an older one: groups are merged, other settings replace what was there. -/
def merge (old? : Option Setting) : Setting → Setting
  | .group entries => .group (mergeAll ((old?.map Setting.entries).getD []) entries)
  | s => s

/-- The settings of a group over older ones. -/
def mergeAll (old : SettingTree) : List (String × Setting) → SettingTree
  | [] => old
  | (name, s) :: entries =>
    let name := smallName name
    mergeAll (putEntry name (merge (old.lookup name) s) old) entries

end

/-! ### Paths -/

/-- A list that is long enough for a place, and the place as a position from its start. The new
places are vacant; they are at the start of the list if the place counts from its end. -/
def reach : Int → List Setting → List Setting × Nat
  | .ofNat n, items => (items ++ List.replicate (n + 1 - items.length) .vacant, n)
  | .negSucc n, items =>
    (List.replicate (n + 1 - items.length) .vacant ++ items, items.length - (n + 1))

/-- A setting at the end of a path. What is no group or list on the way becomes one. -/
def assign (s : Setting) : List SettingStep → Option Setting → Setting
  | [], old? => merge old? s
  | .name name :: path, old? =>
    let entries := (old?.map Setting.entries).getD []
    let name := smallName name
    .group (putEntry name (assign s path (entries.lookup name)) entries)
  | .place place :: path, old? =>
    let reached := reach place ((old?.map Setting.items).getD [])
    .list (reached.1.set reached.2 (assign s path reached.1[reached.2]?))

/-- A list is long enough for the place it was made to reach. -/
theorem reach_lt (place : Int) (items : List Setting) :
    (reach place items).2 < (reach place items).1.length := by
  cases place with
  | ofNat n =>
    simp only [reach, List.length_append, List.length_replicate]
    omega
  | negSucc n =>
    simp only [reach, List.length_append, List.length_replicate]
    omega

/-- A name that was set last has its setting, whatever was there. -/
theorem lookup_assign_name (s : Setting) (name : String) (tree : SettingTree) :
    (assign s [.name name] (some (.group tree))).entries.lookup (smallName name) =
      some (merge (tree.lookup (smallName name)) s) := by
  simp [assign, Setting.entries, lookup_putEntry_self]

/-- A place that was set last has its setting, whatever was there. -/
theorem getElem?_assign_place (s : Setting) (place : Int) (items : List Setting) :
    (assign s [.place place] (some (.list items))).items[(reach place items).2]? =
      some (merge (reach place items).1[(reach place items).2]? s) := by
  simp only [assign, Setting.items, Option.map_some, Option.getD_some]
  exact List.getElem?_set_self (reach_lt place items)

end Setting

end EntityQuery
