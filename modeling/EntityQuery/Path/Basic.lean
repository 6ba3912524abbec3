import EntityQuery.Schema.Basic

/-!
# Paths

A `Path` names a scalar member that is reached from a root type through object members, such as
`address.city`.

* `Path` — the dotted name with what is known about the member.
* `Schema.resolve` — the path of a dotted name, or the reason why there is none.
* `PathError.message` — the reason in words.
-/

namespace EntityQuery

/-- A scalar member reached from a root type. Two paths of one root with one full name agree. -/
structure Path where
  fullName : String
  kind : Kind
  nullable : Bool
  owner : String
  depth : Nat
  deriving DecidableEq, Repr

namespace Path

/-- Paths are told apart by their full name. -/
def same (p q : Path) : Bool := p.fullName == q.fullName

/-- The names from the root to the member. -/
def steps (p : Path) : List String := segments p.fullName

/-- The name of the member. -/
def name (p : Path) : String := p.steps.getLastD ""

/-- The dotted name of the object that holds the member, unless it is the root. -/
def navigation? (p : Path) : Option String :=
  match p.steps.dropLast with
  | [] => none
  | names => some (dotted names)

/-- The name of the member's type. -/
def typeName (p : Path) : String := Schema.typeName.optional p.nullable p.kind.name

/-- The path with the type of its member. -/
def describe (p : Path) : String := "PropertyPath(" ++ p.fullName ++ ": " ++ p.typeName ++ ")"

/-- Every path is the same as itself. -/
@[simp] theorem same_self (p : Path) : p.same p = true := by simp [same]

/-- The names from the root to the member make up the full name. -/
theorem dotted_steps (p : Path) : dotted p.steps = p.fullName := dotted_segments p.fullName

end Path

/-- Why a dotted name is no path. -/
inductive PathError where
  | empty
  | unknownMember (owner member : String)
  | notAnObject (path typeName : String)
  | notScalar (path typeName : String)
  deriving DecidableEq, Repr

/-- The reason in words. -/
def PathError.message : PathError → String
  | .empty => "empty property path"
  | .unknownMember owner member => "type " ++ owner ++ " has no member named '" ++ member ++ "'"
  | .notAnObject path typeName =>
    "cannot traverse '" ++ path ++ "': member of type " ++ typeName ++ " is not an object"
  | .notScalar path typeName =>
    "'" ++ path ++ "' resolves to " ++ typeName ++ ", which is not a scalar property"

namespace Schema

/-- Follow the names of a path from a type. `walked` are the names before, and `full` is the whole
dotted name. -/
def resolveFrom (s : Schema) (full : String) :
    s.Ty → List String → String → List String → Except PathError Path
  | owner, walked, name, rest =>
    match (s.decl owner).member? name with
    | none => .error (.unknownMember (s.nameOf owner) name)
    | some type =>
      match type, rest with
      | .scalar kind nullable, [] => .ok ⟨full, kind, nullable, s.nameOf owner, walked.length⟩
      | .object target _, next :: rest => s.resolveFrom full target (walked ++ [name]) next rest
      | _, [] => .error (.notScalar full (s.typeName type))
      | _, _ :: _ => .error (.notAnObject (dotted (walked ++ [name])) (s.typeName type))

/-- The path of a dotted name from a root type. -/
def resolve (s : Schema) (root : s.Ty) (name : String) : Except PathError Path :=
  match name, segments name with
  | "", _ | _, [] => .error .empty
  | _, first :: rest => s.resolveFrom name root [] first rest

/-- A resolved path has the name it was resolved from. -/
theorem fullName_of_resolveFrom {s : Schema} {full name : String} {rest walked : List String}
    {owner : s.Ty} {p : Path} (h : s.resolveFrom full owner walked name rest = .ok p) :
    p.fullName = full := by
  fun_induction s.resolveFrom full owner walked name rest with
  | case2 =>
    cases h
    rfl
  | case3 owner walked name target _ next rest _ ih => exact ih h
  | case1 => cases h
  | case4 => cases h
  | case5 => cases h

end Schema

end EntityQuery
