import EntityQuery.Path.Discovery
import EntityQuery.Value.Compare

/-!
# Projections

A `Projection` rebuilds a record with chosen members only. Dotted names are grouped by their first
segment: a name that ends is copied, names that go on below an object become a projection of that
object's type.

* `NameTree` — dotted names grouped segment by segment.
* `Projection.ofNames?` — the projection of dotted names, or the first name that does not fit.
* `Projection.apply` — the record that a projection builds.
* `Projection.leafPaths` — the paths that a projection copies.
* `Projection.text` — the projection as text.
-/

namespace EntityQuery

/-! ### Names grouped by segments -/

/-- Names grouped by their first segment, in the order in which the segments first occur. -/
inductive NameTree where
  | node (children : List (String × NameTree))

namespace NameTree

/-- No names. -/
def leaf : NameTree := .node []

/-- Change the group of a segment; a new segment goes to the end. -/
def alter (name : String) (f : NameTree → NameTree) :
    List (String × NameTree) → List (String × NameTree)
  | [] => [(name, f leaf)]
  | (n, t) :: children =>
    if n = name then (n, f t) :: children else (n, t) :: alter name f children

/-- Add a name, given by its segments. -/
def insert : List String → NameTree → NameTree
  | [], t => t
  | s :: rest, .node children => .node (alter s (insert rest) children)

/-- The groups of dotted names. -/
def ofNames (names : List String) : NameTree :=
  names.foldl (fun t name => insert (segments name) t) leaf

/-- The segments in the groups are those that were there, and the new one. -/
theorem map_fst_alter (name : String) (f : NameTree → NameTree)
    (children : List (String × NameTree)) :
    (alter name f children).map (·.1) =
      if name ∈ children.map (·.1) then children.map (·.1)
      else children.map (·.1) ++ [name] := by
  induction children with
  | nil => simp [alter]
  | cons child children ih =>
    by_cases h : child.1 = name
    · simp [alter, h]
    · by_cases hm : name ∈ children.map (·.1)
      · simp_all [alter]
      · simp_all [alter, Ne.symm h]

end NameTree

/-! ### Projections -/

/-- How one member of the result comes about: copied, or built from the members of an object. -/
inductive Binding where
  | copy (member path : String)
  | nested (member path typeName : String) (bindings : List Binding)

/-- A record of a type, built member by member. -/
structure Projection where
  typeName : String
  bindings : List Binding

namespace Binding

mutual

/-- The members of a type for groups of names. `base` is the dotted name of the object. -/
def ofGroups (s : Schema) (t : s.Ty) (base : String) :
    List (String × NameTree) → Except PathError (List Binding)
  | [] => .ok []
  | (name, group) :: groups =>
    match ofGroup s t base name group with
    | .error e => .error e
    | .ok binding => (ofGroups s t base groups).map (binding :: ·)

/-- The member of a type for the group of one name. -/
def ofGroup (s : Schema) (t : s.Ty) (base name : String) : NameTree → Except PathError Binding
  | .node children =>
    if name.isEmpty then .error .empty
    else
      let path := if base.isEmpty then name else base ++ "." ++ name
      match (s.decl t).member? name, children with
      | none, _ => .error (.unknownMember (s.nameOf t) name)
      | some (.scalar ..), _ | some _, [] => .ok (.copy name path)
      | some (.collection element), _ :: _ =>
        .error (.notAnObject path (s.typeName (.collection element)))
      | some (.object target _), _ :: _ =>
        (ofGroups s target path children).map (.nested name path (s.nameOf target))

end

/-- The name of the member. -/
def member : Binding → String
  | .copy member _ | .nested member _ _ _ => member

mutual

/-- The value that a binding builds from a record; what is missing is null. -/
def value (r : Record) : Binding → Value
  | .copy member _ => (r.get? member).getD .null
  | .nested member _ _ bindings =>
    match r.get? member with
    | some (.object inner) => .object (Record.ofPairs (values inner bindings))
    | _ => .null

/-- The named values that bindings build from a record. -/
def values (r : Record) : List Binding → List (String × Value)
  | [] => []
  | binding :: bindings => (member binding, value r binding) :: values r bindings

end

mutual

/-- The paths that a binding copies. -/
def leafPaths : Binding → List String
  | .copy _ path => [path]
  | .nested _ _ _ bindings => allLeafPaths bindings

/-- The paths that bindings copy. -/
def allLeafPaths : List Binding → List String
  | [] => []
  | binding :: bindings => leafPaths binding ++ allLeafPaths bindings

end

/-- The text of a record that is built. -/
def recordText (typeName : String) (members : List String) : String :=
  "new " ++ typeName ++ " \x7b " ++ ", ".intercalate members ++ " \x7d"

mutual

/-- A binding as text. -/
def text : Binding → String
  | .copy member path => member ++ " = x." ++ path
  | .nested member _ typeName bindings => member ++ " = " ++ recordText typeName (texts bindings)

/-- Bindings as texts. -/
def texts : List Binding → List String
  | [] => []
  | binding :: bindings => text binding :: texts bindings

end

end Binding

namespace Projection

/-- The projection of dotted names from a root type. -/
def ofNames? (s : Schema) (root : s.Ty) (names : List String) : Except PathError Projection :=
  match NameTree.ofNames names with
  | .node groups => (Binding.ofGroups s root "" groups).map (⟨s.nameOf root, ·⟩)

/-- The projection of paths from a root type. -/
def ofPaths? (s : Schema) (root : s.Ty) (paths : List Path) : Except PathError Projection :=
  ofNames? s root (paths.map (·.fullName))

/-- The projection onto the members of another type, its view. -/
def ofView? (s : Schema) (root : s.Ty) (t : Schema) (view : t.Ty) : Except PathError Projection :=
  ofPaths? s root (t.paths view none)

/-- The record that a projection builds. -/
def apply (p : Projection) (r : Record) : Record := Record.ofPairs (Binding.values r p.bindings)

/-- The paths that a projection copies. -/
def leafPaths (p : Projection) : List String := Binding.allLeafPaths p.bindings

/-- The projection as text. -/
def text (p : Projection) : String := Binding.recordText p.typeName (Binding.texts p.bindings)

/-- Whether a projection builds empty records. -/
def isEmpty (p : Projection) : Bool := p.bindings.isEmpty

end Projection

end EntityQuery
