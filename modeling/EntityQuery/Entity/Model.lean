import EntityQuery.Schema.Basic
import EntityQuery.Entity.Datum

/-!
# Entity models

An `EntityModel` is a finite family of entity types with the stored types of their members. It
determines a schema, in which hidden members do not occur.

* `MemberType` — the stored type of a member.
* `EntityModel.schema` — the types as paths, conditions and projections see them.
* `EntityModel.untouched` — the datum of an untouched member.
-/

namespace EntityQuery

/-- The stored type of a member in a model of `n` entity types. A boxed datum is stored like the
datum itself; a list carries the label of its elements. -/
inductive MemberType (n : Nat) where
  | scalar (t : ScalarType)
  | option (t : MemberType n)
  | boxed (t : MemberType n)
  | list (element : String) (t : MemberType n)
  | entity (target : Fin n)

/-- The type of a member in the schema. -/
def MemberType.typeRef {n : Nat} : MemberType n → TypeRef n
  | .scalar t => .scalar t.kind false
  | .option t => t.typeRef.nullableOf
  | .boxed t => t.typeRef
  | .list element _ => .collection element
  | .entity target => .object target false

/-- A stored member. A hidden one belongs to no record. -/
structure MemberDecl (n : Nat) where
  name : String
  type : MemberType n
  hidden : Bool := false

/-- An entity type with its members in the order of declaration. -/
structure EntityDecl (n : Nat) where
  name : String
  identity : String
  members : List (MemberDecl n)

/-- The members that belong to records. -/
def EntityDecl.visible {n : Nat} (d : EntityDecl n) : List (MemberDecl n) :=
  d.members.filter fun m => !m.hidden

/-- The entity type as a type of the schema. -/
def EntityDecl.typeDecl {n : Nat} (d : EntityDecl n) : TypeDecl n where
  name := d.name
  identity := d.identity
  members := d.visible.map fun m => ⟨m.name, m.type.typeRef⟩

/-- A finite family of entity types. `initial` tells the variant with which an enumeration of a
name and some variants starts. -/
structure EntityModel where
  size : Nat
  entities : Vector (EntityDecl size) size
  initial : String → List String → String := fun _ variants => variants.headD ""

namespace EntityModel

/-- The entity types of a model, by their place. -/
abbrev Ty (m : EntityModel) := Fin m.size

/-- The declaration of an entity type. -/
def decl (m : EntityModel) (e : m.Ty) : EntityDecl m.size := m.entities[e]

/-- The types as paths, conditions and projections see them. -/
abbrev schema (m : EntityModel) : Schema := ⟨m.size, m.entities.map (·.typeDecl)⟩

/-- The name of an entity type. -/
def nameOf (m : EntityModel) (e : m.Ty) : String := (m.decl e).name

/-- The entity type of a name. -/
def find? (m : EntityModel) (name : String) : Option m.Ty :=
  (List.finRange m.size).find? fun e => m.nameOf e == name

/-- The datum of an untouched member: nothing for optional data, no elements for a list, and
untouched members for an entity. `depth` bounds the nesting of entities. -/
def untouchedAt (m : EntityModel) (depth : Nat) : MemberType m.size → Datum
  | .scalar t => t.untouched m.initial
  | .option _ => .absent
  | .boxed t => m.untouchedAt depth t
  | .list .. => .list []
  | .entity e =>
    match depth with
    | 0 => .entity []
    | depth + 1 => .entity ((m.decl e).members.map fun d => m.untouchedAt depth d.type)
termination_by t => (depth, sizeOf t)

/-- The datum of an untouched member. An entity that is not optional cannot hold itself, so the
number of entity types bounds the nesting. -/
def untouched (m : EntityModel) (t : MemberType m.size) : Datum := m.untouchedAt m.size t

/-- The schema declares what the model declares. -/
theorem decl_schema (m : EntityModel) (e : m.Ty) : m.schema.decl e = (m.decl e).typeDecl :=
  Vector.getElem_map ..

/-- The schema and the model name the types alike. -/
theorem nameOf_schema (m : EntityModel) (e : m.Ty) : m.schema.nameOf e = m.nameOf e := by
  show (m.schema.decl e).name = m.nameOf e
  rw [decl_schema]
  rfl

end EntityModel

end EntityQuery
