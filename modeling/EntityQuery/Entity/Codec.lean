import EntityQuery.Entity.Model

/-!
# Records of entities

The members of an entity as a record, and an entity from a record. A member that a record lacks, or
holds with a value of another type, is untouched.

* `EntityModel.encode`, `EntityModel.decode?` — from data to values and back.
* `EntityModel.toRecord`, `EntityModel.ofRecord` — from entities to records and back.
-/

namespace EntityQuery

/-- A value found in a record is smaller than the record. -/
theorem Record.sizeOf_get? {r : Record} {name : String} {v : Value} (h : Record.get? r name = some v) :
    sizeOf v < sizeOf r := by
  induction r with
  | nil => exact nomatch h
  | cons field r ih =>
    obtain ⟨n, w⟩ := field
    rw [Record.get?] at h
    split at h
    · cases h
      simp
      omega
    · have := ih h
      simp
      omega

namespace EntityModel

variable (m : EntityModel)

/-! ### Encoding -/

mutual

/-- A datum of a type as a value. -/
def encode : MemberType m.size → Datum → Value
  | .scalar t, d => t.encode d
  | .option t, .present d => encode t d
  | .option _, _ => .null
  | .boxed t, d => encode t d
  | .list _ t, .list items => .list (encodeItems t items)
  | .list .., _ => .null
  | .entity e, .entity members => .object (Record.ofPairs (encodeMembers (m.decl e).members members))
  | .entity _, _ => .null
termination_by t d => (sizeOf d, sizeOf t)

/-- The items of a list as values. -/
def encodeItems (t : MemberType m.size) : List Datum → List Value
  | [] => []
  | d :: items => encode t d :: encodeItems t items
termination_by items => (sizeOf items, sizeOf t)

/-- The visible members of an entity as named values. -/
def encodeMembers : List (MemberDecl m.size) → List Datum → List (String × Value)
  | decl :: decls, d :: members =>
    if decl.hidden then encodeMembers decls members
    else (decl.name, encode decl.type d) :: encodeMembers decls members
  | _, _ => []
termination_by decls members => (sizeOf members, sizeOf decls)

end

/-- The record of an entity. -/
def toRecord (e : m.Ty) : Datum → Record
  | .entity members => Record.ofPairs (m.encodeMembers (m.decl e).members members)
  | _ => []

/-! ### Decoding -/

mutual

/-- The datum of a type that a value denotes, if there is one. -/
def decode? : MemberType m.size → Value → Option Datum
  | .scalar t, v => t.decode? v
  | .option t, v => if v.isNull then some .absent else (decode? t v).map .present
  | .boxed t, v => decode? t v
  | .list _ t, .list items => (decodeItems? t items).map .list
  | .list .., _ => none
  | .entity e, .object fields => some (.entity (decodeMembers fields (m.decl e).members))
  | .entity _, _ => none
termination_by t v => (sizeOf v, sizeOf t)

/-- The data of a list, if every item denotes one. -/
def decodeItems? (t : MemberType m.size) : List Value → Option (List Datum)
  | [] => some []
  | v :: items => (decode? t v).bind fun d => (decodeItems? t items).map (d :: ·)
termination_by items => (sizeOf items, sizeOf t)

/-- The members of an entity from a record. A hidden member is untouched, and so is one that the
record lacks or holds with a value of another type. -/
def decodeMembers (r : Record) : List (MemberDecl m.size) → List Datum
  | [] => []
  | decl :: decls =>
    (if decl.hidden then m.untouched decl.type
    else
      match _found : Record.get? r decl.name with
      | some v => (decode? decl.type v).getD (m.untouched decl.type)
      | none => m.untouched decl.type) :: decodeMembers r decls
termination_by decls => (sizeOf r, sizeOf decls)
decreasing_by
  · exact Prod.Lex.left _ _ (Record.sizeOf_get? ‹_›)
  · exact Prod.Lex.right _ (by rw [List.cons.sizeOf_spec]; omega)

end

/-- The entity of a record. -/
def ofRecord (e : m.Ty) (r : Record) : Datum := .entity (m.decodeMembers r (m.decl e).members)

/-- The values of a list are the values of its items. -/
theorem encodeItems_eq_map (t : MemberType m.size) (items : List Datum) :
    m.encodeItems t items = items.map (m.encode t) := by
  induction items with
  | nil => rw [encodeItems, List.map_nil]
  | cons d items ih => rw [encodeItems, ih, List.map_cons]

/-- An entity has a datum for every member that its type declares. -/
theorem length_decodeMembers (r : Record) (decls : List (MemberDecl m.size)) :
    (m.decodeMembers r decls).length = decls.length := by
  induction decls with
  | nil => rw [decodeMembers, List.length_nil, List.length_nil]
  | cons decl decls ih => rw [decodeMembers, List.length_cons, ih, List.length_cons]

end EntityModel

end EntityQuery
