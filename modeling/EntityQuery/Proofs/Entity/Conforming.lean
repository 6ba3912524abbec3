import EntityQuery.Expr.Basic
import EntityQuery.Proofs.Entity.Storing
import EntityQuery.Proofs.Path.Resolution

/-!
# Records conform to the declared types

The schema of a model describes the records of its entities. A record has the visible members in the
order of their declaration. At every discovered path there is a value of the declared kind, or null
where the description or the range of the values admits it, and collections are lists. This holds of
all entities whose members store data of their types, those that are read from a record included,
whatever is in the record.

* `Schema.nullableOn` — whether an object on the way to a member is nullable.
* `EntityModel.encode_scalar`, `EntityModel.encode_reference`, `EntityModel.encode_collection` — the
  value of a stored datum and the type in the schema.
* `EntityModel.value_at` — the value at the path of a member.
* `EntityModel.Conforms`, `EntityModel.conforms` — what the schema says about a record.
-/

namespace EntityQuery

/-! ### Types in the schema -/

namespace TypeRef

variable {n : Nat} {t : TypeRef n} {nullable : Bool}

theorem nullableOf_eq_scalar {k : Kind} (h : t.nullableOf = .scalar k nullable) :
    nullable = true ∧ ∃ nullable', t = .scalar k nullable' := by
  cases t <;> cases h
  exact ⟨rfl, _, rfl⟩

theorem nullableOf_eq_object {target : Fin n} (h : t.nullableOf = .object target nullable) :
    nullable = true ∧ ∃ nullable', t = .object target nullable' := by
  cases t <;> cases h
  exact ⟨rfl, _, rfl⟩

theorem isCollection_nullableOf : t.nullableOf.isCollection = t.isCollection := by
  cases t <;> rfl

end TypeRef

/-- Whether an object on the way along names is nullable. The last name is not on the way. -/
def Schema.nullableOn (s : Schema) : s.Ty → List String → Bool
  | t, name :: next :: rest =>
    match (s.decl t).member? name with
    | some (.object target nullable) => nullable || s.nullableOn target (next :: rest)
    | _ => false
  | _, _ => false

/-- A datum without the marks that it is there. -/
def Datum.inner : Datum → Datum
  | .present d => d.inner
  | d => d

/-- A wide integer outside the range of 64 bits, which may be boxed. -/
def MemberType.Exceeds {n : Nat} : MemberType n → Datum → Prop
  | .scalar t, d => t.Exceeds d
  | .boxed t, d => t.Exceeds d
  | _, _ => False

namespace EntityModel

variable {m : EntityModel} {e target : m.Ty} {t : MemberType m.size} {d : Datum} {nullable : Bool}
  {decl : MemberDecl m.size} {name : String}

/-! ### Values of stored data -/

/-- The value of a member that is a scalar in the schema is one of the kind. It is null for a
nullable member, or for a wide integer outside the range of 64 bits. -/
theorem encode_scalar {k : Kind} (h : m.Stored t d) (ht : t.typeRef = .scalar k nullable) :
    k.accepts (m.encode t d) ∨ m.encode t d = .null ∧ (nullable ∨ t.Exceeds d) := by
  induction h generalizing nullable with
  | @scalar t d hd =>
    cases ht
    rw [encode]
    rcases ScalarType.accepts_encode hd with haccepts | ⟨hnull, hexceeds⟩
    · exact Or.inl haccepts
    · exact Or.inr ⟨hnull, Or.inr hexceeds⟩
  | absent =>
    obtain ⟨rfl, -⟩ := TypeRef.nullableOf_eq_scalar ht
    exact Or.inr ⟨encode_absent _, Or.inl rfl⟩
  | present _ ih =>
    obtain ⟨rfl, nullable', hinner⟩ := TypeRef.nullableOf_eq_scalar ht
    rw [encode]
    rcases ih hinner with haccepts | ⟨hnull, -⟩
    · exact Or.inl haccepts
    · exact Or.inr ⟨hnull, Or.inl rfl⟩
  | boxed _ ih =>
    rw [encode]
    exact ih ht
  | list | entity => cases ht

/-- The value of a member that is an object in the schema is the record of an entity, or null for a
nullable member. -/
theorem encode_reference (h : m.Stored t d) (ht : t.typeRef = .object target nullable) :
    (m.Stored (.entity target) d.inner ∧ m.encode t d = .object (m.toRecord target d.inner)) ∨
      m.encode t d = .null ∧ nullable := by
  induction h generalizing nullable with
  | scalar | list => cases ht
  | absent =>
    obtain ⟨rfl, -⟩ := TypeRef.nullableOf_eq_object ht
    exact Or.inr ⟨encode_absent _, rfl⟩
  | present _ ih =>
    obtain ⟨rfl, nullable', hinner⟩ := TypeRef.nullableOf_eq_object ht
    rw [encode, Datum.inner]
    rcases ih hinner with hentity | ⟨hnull, -⟩
    · exact Or.inl hentity
    · exact Or.inr ⟨hnull, rfl⟩
  | boxed _ ih =>
    rw [encode]
    exact ih ht
  | entity hlength hmembers =>
    cases ht
    refine Or.inl ⟨.entity hlength hmembers, ?_⟩
    rw [encode]
    rfl

/-- The value of a member that is a collection in the schema is a list, or null for an optional
one. -/
theorem encode_collection (h : m.Stored t d) (ht : t.typeRef.isCollection) :
    (∃ items, m.encode t d = .list items) ∨ m.encode t d = .null ∧ t.isOptional := by
  induction h with
  | scalar | entity => cases ht
  | absent => exact Or.inr ⟨encode_absent _, rfl⟩
  | present _ ih =>
    rw [MemberType.typeRef, TypeRef.isCollection_nullableOf] at ht
    rw [encode]
    rcases ih ht with hlist | ⟨hnull, -⟩
    · exact Or.inl hlist
    · exact Or.inr ⟨hnull, rfl⟩
  | boxed _ ih =>
    rw [encode]
    exact ih ht
  | list => exact Or.inl ⟨_, by rw [encode]⟩

/-! ### Values of members -/

/-- The visible member of a name in an entity, with its datum. -/
def memberDatum? (m : EntityModel) (e : m.Ty) (d : Datum) (name : String) :
    Option (MemberDecl m.size × Datum) :=
  match d with
  | .entity members =>
    ((m.decl e).members.zip members).find? fun x => !x.1.hidden && x.1.name == name
  | _ => none

/-- The member that a path names in an entity, with its datum. -/
def datumAt? (m : EntityModel) : m.Ty → Datum → List String → Option (MemberDecl m.size × Datum)
  | _, _, [] => none
  | e, d, [name] => m.memberDatum? e d name
  | e, d, name :: next :: rest =>
    (m.memberDatum? e d name).bind fun x =>
      x.1.type.typeRef.target?.bind fun target => m.datumAt? target x.2.inner (next :: rest)

/-- The record of an entity has the visible members in their order. -/
theorem names_toRecord (hs : m.schema.Proper) (h : m.Stored (.entity e) d) :
    (m.toRecord e d).names = (m.schema.decl e).members.map (·.name) := by
  cases h with
  | @entity _ members hlength _ =>
    have hzip : ((m.decl e).members.zip members).map Prod.fst = (m.decl e).members :=
      List.map_fst_zip (by omega)
    have hnames : (m.encodeMembers (m.decl e).members members).map (·.1) =
        (m.schema.decl e).members.map (·.name) := by
      rw [encodeMembers_eq_map, names_schema, EntityDecl.visible, ← hzip, List.filter_map,
        List.map_map, List.map_map, hzip]
      rfl
    have hdistinct := hs.distinct e
    rw [← hnames] at hdistinct
    rw [toRecord, Record.ofPairs_of_nodup hdistinct, Record.names, hnames]

/-- A visible member of an entity has a stored datum, whose value is in the record. -/
theorem exists_memberDatum (hs : m.schema.Proper) (h : m.Stored (.entity e) d)
    (hdecl : m.member? e name = some decl) :
    ∃ datum, m.Stored decl.type datum ∧ m.memberDatum? e d name = some (decl, datum) ∧
      (m.toRecord e d).get? name = some (m.encode decl.type datum) := by
  obtain ⟨-, hvisible, hname⟩ := mem_of_member? hdecl
  cases h with
  | @entity _ members hlength hmembers =>
    have hzip : ((m.decl e).members.zip members).map Prod.fst = (m.decl e).members :=
      List.map_fst_zip (by omega)
    have hfind : (m.memberDatum? e (.entity members) name).map Prod.fst = some decl := by
      rw [← hdecl, member?, EntityDecl.visible, List.find?_filter, ← hzip, List.find?_map,
        memberDatum?]
      congr 2
      funext x
      rw [Function.comp_apply, Bool.decide_and, Bool.decide_coe, Bool.decide_coe]
    obtain ⟨⟨_, datum⟩, hfound, rfl⟩ := Option.map_eq_some_iff.mp hfind
    have hmem := List.mem_of_find?_eq_some hfound
    have hdistinct : (((m.decl e).members.filter fun d => !d.hidden).map (·.name)).Nodup := by
      rw [← EntityDecl.visible, ← names_schema]
      exact hs.distinct e
    refine ⟨datum, hmembers _ hmem hvisible, hfound, ?_⟩
    rw [toRecord, ← hname]
    exact get?_encodeMembers hdistinct hmem hvisible

/-- At the path of a member there is the value of its stored datum, or null because an object on the
way is nullable. -/
theorem value_at (hs : m.schema.Proper) (h : m.Stored (.entity e) d) {steps : List String}
    (hdecl : m.declAt? e steps = some decl) :
    (∃ datum, m.Stored decl.type datum ∧ m.datumAt? e d steps = some (decl, datum) ∧
        (m.toRecord e d).at? steps = some (m.encode decl.type datum)) ∨
      (m.toRecord e d).at? steps = some .null ∧ m.schema.nullableOn e steps := by
  induction steps generalizing e d with
  | nil => cases hdecl
  | cons name rest ih =>
    cases rest with
    | nil =>
      obtain ⟨datum, hstored, hdatum, hvalue⟩ := exists_memberDatum hs h hdecl
      exact Or.inl ⟨datum, hstored, hdatum, Record.at?_singleton hvalue⟩
    | cons next rest =>
      obtain ⟨object, hobject, hinner⟩ := Option.bind_eq_some_iff.mp hdecl
      obtain ⟨target, htarget, hinner⟩ := Option.bind_eq_some_iff.mp hinner
      obtain ⟨nullable, href⟩ : ∃ nullable, object.type.typeRef = .object target nullable := by
        cases hcase : object.type.typeRef <;> rw [hcase] at htarget <;> cases htarget
        exact ⟨_, rfl⟩
      have hmember : (m.schema.decl e).member? name = some (.object target nullable) := by
        rw [member?_schema, hobject, Option.map_some, href]
      have hnullable : m.schema.nullableOn e (name :: next :: rest) =
          (nullable || m.schema.nullableOn target (next :: rest)) := by
        rw [Schema.nullableOn, hmember]
      obtain ⟨datum, hstored, hdatum, hvalue⟩ := exists_memberDatum hs h hobject
      rcases encode_reference hstored href with ⟨hentity, hencode⟩ | ⟨hnull, htrue⟩
      · rw [hencode] at hvalue
        rw [datumAt?, hdatum, Option.bind_some, htarget, Option.bind_some,
          Record.at?_object (List.cons_ne_nil next rest) hvalue, hnullable, Bool.or_eq_true]
        rcases ih hentity hinner with hfound | ⟨hnone, hway⟩
        · exact Or.inl hfound
        · exact Or.inr ⟨hnone, Or.inr hway⟩
      · rw [hnull] at hvalue
        right
        rw [hnullable, htrue]
        exact ⟨Record.at?_null hvalue _, rfl⟩

/-! ### Conforming records -/

/-- Names that lead to a path name a scalar member of its kind. -/
theorem declAt?_of_leadsTo {depth : Nat} {steps : List String} {p : Path}
    (h : m.schema.LeadsTo depth e steps p) :
    ∃ decl, m.declAt? e steps = some decl ∧ decl.type.typeRef = .scalar p.kind p.nullable := by
  obtain ⟨before, last, u, rfl, hthrough, hmember, -⟩ := h
  induction before generalizing e with
  | nil =>
    cases hthrough
    exact exists_decl hmember
  | cons name before ih =>
    obtain ⟨target, henter, hrest⟩ := Schema.through?_cons.mp hthrough
    obtain ⟨nullable, hobject⟩ := Schema.enter?_eq_some.mp henter
    obtain ⟨decl, hdecl, href⟩ := exists_decl hobject
    obtain ⟨next, rest, hnames⟩ : ∃ next rest, before ++ [last] = next :: rest :=
      List.exists_cons_of_ne_nil (by simp)
    have hinner := ih hrest
    rw [hnames] at hinner
    rw [List.cons_append, hnames, declAt?, hdecl, Option.bind_some, href]
    exact hinner

/-- What the schema says about the record of an entity.

* It has the members of the type in the order of their declaration.
* At every discovered path there is a value, which is what an expression finds there, and it is one
  of the kind of the path. It is null only if the path or an object on the way to it is nullable, or
  if it stands for a wide integer outside the range of 64 bits.
* A collection is a list. It is null only if it is optional or an object on the way to it is
  nullable. -/
structure Conforms (m : EntityModel) (e : m.Ty) (d : Datum) : Prop where
  names : (m.toRecord e d).names = (m.schema.decl e).members.map (·.name)
  scalars : ∀ limit, ∀ p ∈ (Walk.start m.schema e limit).toList,
    ∃ v, (m.toRecord e d).getPath? p.fullName = some v ∧
      (Expr.property p).eval (m.toRecord e d) = v ∧
      (p.kind.accepts v ∨ v = .null ∧ (p.nullable ∨ m.schema.nullableOn e p.steps ∨
        ∃ decl datum, m.datumAt? e d p.steps = some (decl, datum) ∧ decl.type.Exceeds datum))
  collections : ∀ name decl, m.declAt? e (segments name) = some decl →
    decl.type.typeRef.isCollection →
    ∃ v, (m.toRecord e d).getPath? name = some v ∧
      ((∃ items, v = .list items) ∨
        v = .null ∧ (decl.type.isOptional ∨ m.schema.nullableOn e (segments name)))

theorem conforms_of_stored (hs : m.schema.Proper) (h : m.Stored (.entity e) d) :
    m.Conforms e d where
  names := names_toRecord hs h
  scalars limit p hp := by
    rw [Walk.toList_start] at hp
    obtain ⟨steps, hsteps, hleads⟩ :=
      Schema.leadsTo_of_mem_discover hs (List.Subset.refl _) rfl hp
    have hpath : p.steps = steps := hsteps
    obtain ⟨decl, hdecl, href⟩ := declAt?_of_leadsTo hleads
    simp only [Expr.eval, Record.getPath?_eq_at?]
    rw [← Path.steps, hpath]
    rcases value_at hs h hdecl with ⟨datum, hstored, hdatum, hvalue⟩ | ⟨hnull, hway⟩
    · refine ⟨_, hvalue, by rw [hvalue, Option.getD_some], ?_⟩
      rcases encode_scalar hstored href with haccepts | ⟨hencode, hnullable | hexceeds⟩
      · exact Or.inl haccepts
      · exact Or.inr ⟨hencode, Or.inl hnullable⟩
      · exact Or.inr ⟨hencode, Or.inr (Or.inr ⟨decl, datum, hdatum, hexceeds⟩)⟩
    · exact ⟨.null, hnull, by rw [hnull, Option.getD_some], Or.inr ⟨rfl, Or.inr (Or.inl hway)⟩⟩
  collections name decl hdecl hcollection := by
    rw [Record.getPath?_eq_at?]
    rcases value_at hs h hdecl with ⟨datum, hstored, -, hvalue⟩ | ⟨hnull, hway⟩
    · refine ⟨_, hvalue, ?_⟩
      rcases encode_collection hstored hcollection with hlist | ⟨hencode, hoptional⟩
      · exact Or.inl hlist
      · exact Or.inr ⟨hencode, Or.inl hoptional⟩
    · exact ⟨.null, hnull, Or.inr ⟨rfl, Or.inr hway⟩⟩

/-- In a model with proper names the record of every entity conforms to its type. If untouched
members are data of their types, so is every entity that is read from a record, and its record
conforms too. -/
theorem conforms (m : EntityModel) (hs : m.schema.Proper) :
    (∀ e d, m.Stored (.entity e) d → m.Conforms e d) ∧
      (m.Constructible →
        ∀ e r, m.Stored (.entity e) (m.ofRecord e r) ∧ m.Conforms e (m.ofRecord e r)) := by
  refine ⟨fun e d h => conforms_of_stored hs h, fun hm e r => ?_⟩
  have hstored := stored_ofRecord hm e r
  exact ⟨hstored, conforms_of_stored hs hstored⟩

/-- A place has a level and perhaps tags. A parcel has a number of 128 bits, which may be outside the
range of 64 bits, and perhaps a parcel that it replaces. -/
theorem conforms_parcel :
    let level : ScalarType := .ofKind (.enum "Level" ["low", "high"])
    let place : EntityDecl 2 := ⟨"Place", "post::Place",
      [⟨"level", .scalar level, false⟩,
        ⟨"tags", .option (.list "String" (.scalar (.ofKind .text))), false⟩]⟩
    let parcel : EntityDecl 2 := ⟨"Parcel", "post::Parcel",
      [⟨"number", .boxed (.scalar (.wide true)), false⟩,
        ⟨"note", .scalar .char, true⟩,
        ⟨"size", .scalar (.ofKind .single), false⟩,
        ⟨"replaces", .option (.boxed (.entity 1)), false⟩,
        ⟨"place", .entity 0, false⟩]⟩
    let m : EntityModel := ⟨2, #v[place, parcel], fun _ variants => variants.headD ""⟩
    let d : Datum := .entity
      [.integer 1180591620717411303424, .char '-', .float .zero, .absent,
        .entity [.variant "high", .absent]]
    let r : Record := [("number", .text "seven"), ("size", .int 7), ("place", .null)]
    m.schema.Proper ∧ m.Stored (.entity 1) d ∧ m.Conforms 1 d ∧ m.Constructible ∧
      m.Stored (.entity 1) (m.ofRecord 1 r) ∧ m.Conforms 1 (m.ofRecord 1 r) := by
  intro level place parcel m d r
  have hs : m.schema.Proper := proper_of_visible (by decide) (by decide)
  have hm : m.Constructible := by
    have hheld : ∀ outer, ∀ decl ∈ (m.decl outer).members, ∀ inner,
        decl.type.held? = some inner → inner.val < outer.val := by decide
    have hholds {inner outer : m.Ty} (h : m.Holds inner outer) : inner.val < outer.val := by
      obtain ⟨decl, hdecl, hinner⟩ := h
      exact hheld outer decl hdecl inner hinner
    refine ⟨(Subrelation.wf hholds (measure Fin.val).wf).apply, ?_⟩
    have hplace : (m.decl 0).visible = place.members := rfl
    have hparcel : (m.decl 1).visible = parcel.members.eraseIdx 1 := rfl
    refine Fin.forall_fin_two.mpr ⟨?_, ?_⟩
    · rw [hplace]
      refine List.forall_mem_cons.mpr ⟨fun _ _ h => ?_, List.forall_mem_singleton.mpr nofun⟩
      cases h
      exact List.mem_cons_self
    · rw [hparcel]
      refine List.forall_mem_cons.mpr ⟨nofun, List.forall_mem_cons.mpr ⟨nofun, ?_⟩⟩
      exact List.forall_mem_cons.mpr ⟨nofun, List.forall_mem_singleton.mpr nofun⟩
  have hd : m.Stored (.entity 1) d := by
    have hplace : m.Stored (.entity 0) (.entity [.variant "high", .absent]) := by
      refine .entity rfl (List.forall_mem_cons.mpr ⟨fun _ => .scalar ?_, ?_⟩)
      · exact List.mem_cons_of_mem _ List.mem_cons_self
      · exact List.forall_mem_singleton.mpr fun _ => .absent
    refine .entity rfl (List.forall_mem_cons.mpr ⟨fun _ => .boxed (.scalar trivial), ?_⟩)
    refine List.forall_mem_cons.mpr ⟨nofun, List.forall_mem_cons.mpr ⟨fun _ => .scalar ?_, ?_⟩⟩
    · exact decide_eq_true (Nat.zero_le _)
    · refine List.forall_mem_cons.mpr ⟨fun _ => .absent, ?_⟩
      exact List.forall_mem_singleton.mpr fun _ => hplace
  obtain ⟨hstored, hread⟩ := conforms m hs
  exact ⟨hs, hd, hstored 1 d hd, hm, hread hm 1 r⟩

end EntityModel

end EntityQuery
