import EntityQuery.Value.Kind

/-!
# Schemas

A `Schema` is a finite family of types that may refer to each other, cycles included. Every type has
named members; a member is a scalar, an object of another type, or a collection.

* `TypeRef` — the declared type of a member; object types are places in the schema.
* `TypeDecl` — a type: its name, its identity and its members in the order of declaration.
* `Schema.typeName` — the name under which a member's type is shown.
* `Schema.sameRef`, `TypeDecl.sameType` — equality of member types, and of types.
-/

namespace EntityQuery

/-- The declared type of a member in a schema of `n` types. -/
inductive TypeRef (n : Nat) where
  | scalar (kind : Kind) (nullable : Bool)
  | object (target : Fin n) (nullable : Bool)
  | collection (element : String)
  deriving DecidableEq, Repr

namespace TypeRef

variable {n : Nat}

/-- The same type, admitting null. A collection is never null. -/
def nullableOf : TypeRef n → TypeRef n
  | .scalar kind _ => .scalar kind true
  | .object target _ => .object target true
  | .collection element => .collection element

/-- Whether a member of this type can be null. -/
def isNullable : TypeRef n → Bool
  | .scalar _ nullable | .object _ nullable => nullable
  | .collection _ => false

/-- Whether the type is a scalar. -/
def isScalar : TypeRef n → Bool
  | .scalar .. => true
  | _ => false

/-- Whether the type is a collection. -/
def isCollection : TypeRef n → Bool
  | .collection _ => true
  | _ => false

/-- The kind of a scalar. -/
def kind? : TypeRef n → Option Kind
  | .scalar kind _ => some kind
  | _ => none

/-- The type of an object. -/
def target? : TypeRef n → Option (Fin n)
  | .object target _ => some target
  | _ => none

/-- Whatever is not a collection can be made nullable. -/
theorem isNullable_nullableOf (t : TypeRef n) : t.nullableOf.isNullable = !t.isCollection := by
  cases t <;> rfl

end TypeRef

/-- A named member. -/
structure Member (n : Nat) where
  name : String
  type : TypeRef n
  deriving DecidableEq, Repr

/-- A type of a schema of `n` types. Types are told apart by their identity; the name is for
people. -/
structure TypeDecl (n : Nat) where
  name : String
  identity : String
  members : List (Member n)
  deriving DecidableEq, Repr

namespace TypeDecl

variable {m n : Nat}

/-- The type of a member; the first member of a name counts. -/
def member? (d : TypeDecl n) (name : String) : Option (TypeRef n) :=
  (d.members.find? fun m => m.name == name).map (·.type)

/-- Equality of types. -/
def sameType (a : TypeDecl m) (b : TypeDecl n) : Bool := a.identity == b.identity

end TypeDecl

/-- A finite family of types. -/
structure Schema where
  size : Nat
  types : Vector (TypeDecl size) size

namespace Schema

/-- The types of a schema, by their place. -/
abbrev Ty (s : Schema) := Fin s.size

/-- The declaration of a type. -/
def decl (s : Schema) (t : s.Ty) : TypeDecl s.size := s.types[t]

/-- The name of a type. -/
def nameOf (s : Schema) (t : s.Ty) : String := (s.decl t).name

/-- The name under which a member's type is shown. -/
def typeName (s : Schema) : TypeRef s.size → String
  | .collection element => "Vec<" ++ element ++ ">"
  | .scalar kind nullable => optional nullable kind.name
  | .object target nullable => optional nullable (s.nameOf target)
where
  /-- The name of a type that may admit null. -/
  optional (nullable : Bool) (name : String) : String :=
    if nullable then "Option<" ++ name ++ ">" else name

/-- Equality of member types, also of different schemas. Object types agree when their names do. -/
def sameRef (s : Schema) (a : TypeRef s.size) (t : Schema) (b : TypeRef t.size) : Bool :=
  match a, b with
  | .scalar k nullable, .scalar l nullable' => k == l && nullable == nullable'
  | .object x nullable, .object y nullable' =>
    nullable == nullable' && s.nameOf x == t.nameOf y
  | .collection e, .collection f => e == f
  | _, _ => false

/-- Equality of members: the same name and the same type. -/
def sameMember (s : Schema) (a : Member s.size) (t : Schema) (b : Member t.size) : Bool :=
  a.name == b.name && s.sameRef a.type t b.type

/-- Every member type agrees with itself. -/
theorem sameRef_self (s : Schema) (a : TypeRef s.size) : s.sameRef a s a = true := by
  cases a <;> simp [sameRef]

end Schema

end EntityQuery
