import EntityQuery.Proofs.Entity.Defaults
import EntityQuery.Proofs.Path.Leading
import EntityQuery.Proofs.Value.Record

/-!
# Members of records of entities

Which value the record of an entity has for a member, and which datum a member of a decoded entity
has. The visible members of a supported model have different names, so a record has one value for
each of them.

* `EntityModel.member?` — the visible member of a name.
* `EntityModel.readMember` — the datum of a member that is read from a record.
* `EntityModel.get?_toRecord` — the value of a member.
* `EntityModel.declAt?` — the member that a path names.
-/

namespace EntityQuery

theorem EntityDecl.member?_typeDecl {n : Nat} (d : EntityDecl n) (name : String) :
    d.typeDecl.member? name =
      (d.visible.find? fun decl => decl.name == name).map (·.type.typeRef) := by
  rw [TypeDecl.member?, typeDecl, List.find?_map, Option.map_map]
  rfl

namespace EntityModel

variable {m : EntityModel} {e : m.Ty} {name : String} {decl : MemberDecl m.size}

/-! ### Declared members -/

/-- The visible member of a name. -/
def member? (m : EntityModel) (e : m.Ty) (name : String) : Option (MemberDecl m.size) :=
  (m.decl e).visible.find? fun d => d.name == name

/-- The member that a path names. -/
def declAt? (m : EntityModel) : m.Ty → List String → Option (MemberDecl m.size)
  | _, [] => none
  | e, [name] => m.member? e name
  | e, name :: next :: rest =>
    (m.member? e name).bind fun d =>
      d.type.typeRef.target?.bind fun target => m.declAt? target (next :: rest)

/-- The value that an untouched entity has at a path. -/
def defaultAt? (m : EntityModel) (e : m.Ty) (path : List String) : Option Value :=
  (m.declAt? e path).map fun d => m.encode d.type (m.untouched d.type)

theorem member?_schema (m : EntityModel) (e : m.Ty) (name : String) :
    (m.schema.decl e).member? name = (m.member? e name).map (·.type.typeRef) := by
  rw [decl_schema]
  exact (m.decl e).member?_typeDecl name

theorem exists_decl {type : TypeRef m.size} (h : (m.schema.decl e).member? name = some type) :
    ∃ decl, m.member? e name = some decl ∧ decl.type.typeRef = type := by
  rw [member?_schema, Option.map_eq_some_iff] at h
  exact h

/-- The schema declares the visible members in their order. -/
theorem names_schema (m : EntityModel) (e : m.Ty) :
    (m.schema.decl e).members.map (·.name) = (m.decl e).visible.map (·.name) := by
  rw [decl_schema, EntityDecl.typeDecl, List.map_map]
  rfl

/-- Visible members whose names make up paths and differ within a type make a proper schema. -/
theorem proper_of_visible
    (hnamed : ∀ e, ∀ d ∈ (m.decl e).visible, d.name ≠ "" ∧ '.' ∉ d.name.toList)
    (hdistinct : ∀ e, ((m.decl e).visible.map (·.name)).Nodup) : m.schema.Proper where
  named e member h := by
    rw [decl_schema] at h
    obtain ⟨decl, hdecl, rfl⟩ := List.mem_map.mp h
    exact hnamed e decl hdecl
  distinct e := by
    rw [names_schema]
    exact hdistinct e

theorem mem_of_member? (h : m.member? e name = some decl) :
    decl ∈ (m.decl e).members ∧ decl.hidden = false ∧ decl.name = name := by
  have hmem := List.mem_of_find?_eq_some h
  have hname := List.find?_some (p := fun d : MemberDecl m.size => d.name == name) h
  rw [EntityDecl.visible, List.mem_filter, Bool.not_eq_true'] at hmem
  exact ⟨hmem.1, hmem.2, beq_iff_eq.mp hname⟩

/-! ### Values of members -/

theorem encodeMembers_eq_map (m : EntityModel) (decls : List (MemberDecl m.size))
    (members : List Datum) :
    m.encodeMembers decls members =
      ((decls.zip members).filter (!·.1.hidden)).map fun x =>
        (x.1.name, m.encode x.1.type x.2) := by
  induction decls generalizing members with
  | nil => cases members <;> simp [encodeMembers]
  | cons decl decls ih =>
    cases members with
    | nil => simp [encodeMembers]
    | cons d members =>
      rw [encodeMembers, ih, List.zip_cons_cons, List.filter_cons]
      cases decl.hidden <;> simp

theorem names_encodeMembers (m : EntityModel) (decls : List (MemberDecl m.size))
    (members : List Datum) :
    ((m.encodeMembers decls members).map (·.1)).Sublist
      ((decls.filter fun d => !d.hidden).map (·.name)) := by
  induction decls generalizing members with
  | nil => simp [encodeMembers]
  | cons decl decls ih =>
    cases members with
    | nil => simp [encodeMembers]
    | cons d members =>
      rw [encodeMembers, List.filter_cons]
      cases decl.hidden with
      | true => exact ih members
      | false => exact (ih members).cons_cons _

/-- In the record of members the value of a visible one stands next to its name. -/
theorem get?_encodeMembers {decls : List (MemberDecl m.size)} {members : List Datum} {d : Datum}
    (hdistinct : ((decls.filter fun d => !d.hidden).map (·.name)).Nodup)
    (hmem : (decl, d) ∈ decls.zip members) (hvisible : decl.hidden = false) :
    (Record.ofPairs (m.encodeMembers decls members)).get? decl.name =
      some (m.encode decl.type d) := by
  have hnodup := hdistinct.sublist (names_encodeMembers m decls members)
  rw [Record.ofPairs_of_nodup hnodup]
  refine Record.get?_of_mem hnodup ?_
  rw [encodeMembers_eq_map]
  refine List.mem_map.mpr ⟨(decl, d), List.mem_filter.mpr ⟨hmem, ?_⟩, rfl⟩
  rw [hvisible]
  rfl

/-- The value of a visible member is that of its datum. -/
theorem get?_toRecord (hm : m.Supported) {members : List Datum} {d : Datum}
    (hdecl : m.member? e name = some decl) (h : (decl, d) ∈ (m.decl e).members.zip members) :
    (m.toRecord e (.entity members)).get? name = some (m.encode decl.type d) := by
  obtain ⟨-, hvisible, rfl⟩ := mem_of_member? hdecl
  exact get?_encodeMembers (hm.distinct e) h hvisible

/-- The value of a member of an entity whose data depend on their declarations. -/
theorem get?_toRecord_map (hm : m.Supported) (f : MemberDecl m.size → Datum)
    (hdecl : m.member? e name = some decl) :
    (m.toRecord e (.entity ((m.decl e).members.map f))).get? name =
      some (m.encode decl.type (f decl)) := by
  refine get?_toRecord hm hdecl ?_
  have hzip := List.zip_map' (f := id) (g := f) (l := (m.decl e).members)
  rw [List.map_id] at hzip
  rw [hzip, List.mem_map]
  exact ⟨decl, (mem_of_member? hdecl).1, rfl⟩

/-- The value of a member of an entity is that of a datum of its type. -/
theorem get?_toRecord_typed (hm : m.Supported) {members : List Datum}
    (h : m.Typed (.entity e) (.entity members)) (hdecl : m.member? e name = some decl) :
    ∃ d, m.Typed decl.type d ∧
      (m.toRecord e (.entity members)).get? name = some (m.encode decl.type d) := by
  cases h with
  | entity hlength hmembers =>
    obtain ⟨i, hi, hget⟩ := List.getElem_of_mem (mem_of_member? hdecl).1
    have hzip : (decl, members[i]) ∈ (m.decl e).members.zip members :=
      List.mem_iff_getElem.mpr
        ⟨i, by rw [List.length_zip]; omega, by rw [List.getElem_zip, hget]⟩
    exact ⟨members[i], hmembers _ hzip, get?_toRecord hm hdecl hzip⟩

/-! ### Members that are read -/

/-- The datum of a visible member that is read from a value, if there is one. -/
def readMember (m : EntityModel) (t : MemberType m.size) (v? : Option Value) : Datum :=
  (v?.bind (m.decode? t)).getD (m.untouched t)

theorem decodeMembers_eq_map (m : EntityModel) (r : Record) (decls : List (MemberDecl m.size)) :
    m.decodeMembers r decls = decls.map fun d =>
      if d.hidden then m.untouched d.type else m.readMember d.type (r.get? d.name) := by
  induction decls with
  | nil => rw [decodeMembers, List.map_nil]
  | cons decl decls ih =>
    rw [decodeMembers, ih, List.map_cons]
    congr 2
    rw [readMember]
    cases r.get? decl.name <;> rfl

/-- The value of a member of an entity that is read from a record. -/
theorem get?_ofRecord (hm : m.Supported) (r : Record) (hdecl : m.member? e name = some decl) :
    (m.toRecord e (m.ofRecord e r)).get? name =
      some (m.encode decl.type (m.readMember decl.type (r.get? name))) := by
  obtain ⟨-, hvisible, rfl⟩ := mem_of_member? hdecl
  rw [ofRecord, decodeMembers_eq_map, get?_toRecord_map hm _ hdecl, hvisible]
  rfl

end EntityModel

end EntityQuery
