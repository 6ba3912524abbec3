import EntityQuery.Proofs.Projection.Grouping

/-!
# Sparse entities

An entity that is read from a projected record has the values of the whole entity at the projected
paths. At other paths it is null or untouched.

* `EntityModel.schema_proper` — the schema of a supported model is proper.
* `EntityModel.at?_untouched` — the record of an untouched entity.
* `EntityModel.sparse` — the record of an entity that is read from a projected record.
* `EntityModel.at?_sparse` — its values at projected paths and at other paths.
-/

namespace EntityQuery

namespace EntityModel

variable {m : EntityModel} {e target : m.Ty} {name base : String} {nullable : Bool}

/-- The schema of a supported model has proper names. -/
theorem schema_proper (hm : m.Supported) : m.schema.Proper :=
  proper_of_visible hm.named hm.distinct

theorem apart_of_member? (hm : m.Supported) {decl : MemberDecl m.size}
    (h : m.member? e name = some decl) : decl.type.isSupported :=
  hm.apart e decl (List.mem_of_find?_eq_some h)

/-- Names that lead to a scalar member name it. -/
theorem exists_declAt? {e : m.schema.Ty} {steps : List String} (h : m.schema.Leads e steps) :
    ∃ decl, m.declAt? e steps = some decl := by
  induction h with
  | scalar hmember =>
    obtain ⟨decl, hdecl, -⟩ := exists_decl hmember
    exact ⟨decl, by rw [declAt?, hdecl]⟩
  | object hmember hrest ih =>
    obtain ⟨decl, hdecl, hobject⟩ := exists_decl hmember
    obtain ⟨next, rest, rfl⟩ := List.exists_cons_of_ne_nil hrest.ne_nil
    rw [declAt?, hdecl, Option.bind_some, hobject]
    exact ih

/-! ### Untouched entities -/

/-- The default at a path below an object is that of the type of the object. -/
theorem defaultAt?_object {decl : MemberDecl m.size} {rest : List String} (hrest : rest ≠ [])
    (hdecl : m.member? e name = some decl) (hobject : decl.type.typeRef = .object target nullable) :
    m.defaultAt? e (name :: rest) = m.defaultAt? target rest := by
  obtain ⟨next, rest, rfl⟩ := List.exists_cons_of_ne_nil hrest
  rw [defaultAt?, declAt?, hdecl, Option.bind_some, hobject]
  rfl

/-- An untouched member that is an object in the schema is nothing, or an untouched entity. -/
theorem encode_untouched {t : MemberType m.size} (hobject : t.typeRef = .object target nullable) :
    m.encode t (m.untouched t) = .null ∨ t.held? = some target ∧
      m.encode t (m.untouched t) = m.encode (.entity target) (m.untouched (.entity target)) := by
  induction t with
  | scalar | list => cases hobject
  | option t =>
    left
    rw [untouched, untouchedAt, encode_absent]
  | boxed t ih =>
    rw [untouched, untouchedAt, encode]
    exact ih hobject
  | entity e =>
    cases hobject
    exact Or.inr ⟨rfl, rfl⟩

/-- At every path to a scalar an untouched entity is null or has the default of the member. -/
theorem at?_untouched (hm : m.Supported) {e : m.schema.Ty} {steps : List String}
    (h : m.schema.Leads e steps)
    (hacc : Acc m.Holds e) :
    (m.toRecord e (m.untouched (.entity e))).at? steps = some .null ∨
      (m.toRecord e (m.untouched (.entity e))).at? steps = m.defaultAt? e steps := by
  rw [untouched_entity hacc]
  induction h with
  | @scalar e name kind nullable hmember =>
    right
    obtain ⟨decl, hdecl, -⟩ := exists_decl hmember
    rw [Record.at?_singleton (get?_toRecord_map hm _ hdecl), defaultAt?, declAt?, hdecl]
    rfl
  | @object e target name nullable rest hmember hrest ih =>
    obtain ⟨decl, hdecl, hobject⟩ := exists_decl hmember
    have hget := get?_toRecord_map hm (fun d => m.untouched d.type) hdecl
    obtain hnull | ⟨hheld, hencode⟩ := encode_untouched hobject
    · left
      rw [hnull] at hget
      exact Record.at?_null hget rest
    · have htarget : Acc m.Holds target := hacc.inv ⟨decl, (mem_of_member? hdecl).1, hheld⟩
      rw [hencode, untouched_entity htarget, encode] at hget
      rw [Record.at?_object hrest.ne_nil hget, defaultAt?_object hrest.ne_nil hdecl hobject]
      exact ih htarget

/-! ### Projected entities -/

/-- The record of an entity that is read from the projected record of a datum. -/
def sparse (m : EntityModel) (e : m.Ty) (bindings : List Binding) (d : Datum) : Record :=
  m.toRecord e (m.ofRecord e (Record.ofPairs (Binding.values (m.toRecord e d) bindings)))

variable {names : List (List String)} {bindings : List Binding} {decl : MemberDecl m.size}
  {members : List Datum}

/-- The value of a member comes from what is projected for it. -/
theorem get?_sparse (hm : m.Supported)
    (hbindings : Binding.ofGroups m.schema e base (NameTree.ofSteps names).children = .ok bindings)
    (hdecl : m.member? e name = some decl) (d : Datum) :
    (m.sparse e bindings d).get? name = some (m.encode decl.type (m.readMember decl.type
      (Record.get? (Binding.values (m.toRecord e d) bindings) name))) := by
  have hnodup : ((Binding.values (m.toRecord e d) bindings).map (·.1)).Nodup := by
    rw [Binding.names_values hbindings]
    exact NameTree.nodup_ofSteps names
  rw [sparse, Record.ofPairs_of_nodup hnodup]
  exact get?_ofRecord hm _ hdecl

/-- A member of which nothing is projected is untouched. -/
theorem get?_sparse_untouched (hm : m.Supported)
    (hbindings : Binding.ofGroups m.schema e base (NameTree.ofSteps names).children = .ok bindings)
    (hdecl : m.member? e name = some decl) (d : Datum) (hnone : NameTree.rests name names = []) :
    (m.sparse e bindings d).get? name = some (m.encode decl.type (m.untouched decl.type)) := by
  have hlookup := NameTree.lookup_ofSteps name names
  rw [if_pos hnone] at hlookup
  rw [get?_sparse hm hbindings hdecl, Binding.get?_values_none hbindings _ hlookup]
  rfl

/-- A projected scalar has its value. -/
theorem get?_sparse_scalar (hm : m.Supported)
    (hbindings : Binding.ofGroups m.schema e base (NameTree.ofSteps names).children = .ok bindings)
    (htyped : m.Typed (.entity e) (.entity members)) (hdecl : m.member? e name = some decl)
    {kind : Kind} (hscalar : decl.type.typeRef = .scalar kind nullable)
    (hsome : NameTree.rests name names ≠ []) :
    (m.sparse e bindings (.entity members)).get? name =
      (m.toRecord e (.entity members)).get? name := by
  obtain ⟨d, hd, hget⟩ := get?_toRecord_typed hm htyped hdecl
  have hmember : (m.schema.decl e).member? name = some (.scalar kind nullable) := by
    rw [member?_schema, hdecl, Option.map_some, hscalar]
  have hname := (schema_proper hm).name_ne_empty hmember
  have hlookup := NameTree.lookup_ofSteps name names
  rw [if_neg hsome] at hlookup
  obtain ⟨b, hb, hvalue⟩ := Binding.get?_values_some hbindings _ hlookup
  rw [Binding.ofGroup_scalar hname hmember] at hb
  cases hb
  rw [Binding.value, hget, Option.getD_some] at hvalue
  have hback : m.decode? decl.type (m.encode decl.type d) = some d :=
    decode?_encode hd (apart_of_member? hm hdecl) (by rw [hscalar]; rfl)
  rw [get?_sparse hm hbindings hdecl, hvalue, hget, readMember, Option.bind_some, hback,
    Option.getD_some]

/-- An object of which something is projected is nothing in both records, or a sparse entity. -/
theorem get?_sparse_object (hm : m.Supported) (hnames : ∀ l ∈ names, m.schema.Leads e l)
    (hbindings : Binding.ofGroups m.schema e base (NameTree.ofSteps names).children = .ok bindings)
    (htyped : m.Typed (.entity e) (.entity members)) (hdecl : m.member? e name = some decl)
    (hobject : decl.type.typeRef = .object target nullable)
    (hsome : NameTree.rests name names ≠ []) :
    (m.toRecord e (.entity members)).get? name = some .null ∧
        (m.sparse e bindings (.entity members)).get? name = some .null ∨
      ∃ inner innerBindings, m.Typed (.entity target) (.entity inner) ∧
        Binding.ofGroups m.schema target (qualify base name)
          (NameTree.ofSteps (NameTree.rests name names)).children = .ok innerBindings ∧
        (m.toRecord e (.entity members)).get? name =
          some (.object (m.toRecord target (.entity inner))) ∧
        (m.sparse e bindings (.entity members)).get? name =
          some (.object (m.sparse target innerBindings (.entity inner))) := by
  obtain ⟨d, hd, hget⟩ := get?_toRecord_typed hm htyped hdecl
  have hmember : (m.schema.decl e).member? name = some (.object target nullable) := by
    rw [member?_schema, hdecl, Option.map_some, hobject]
  have hname := (schema_proper hm).name_ne_empty hmember
  have hleads := Binding.rests_lead hnames hmember
  have hlookup := NameTree.lookup_ofSteps name names
  rw [if_neg hsome] at hlookup
  obtain ⟨b, hb, hvalue⟩ :=
    Binding.get?_values_some hbindings (m.toRecord e (.entity members)) hlookup
  rw [Binding.ofGroup_object hname hmember (Binding.children_ne_nil hsome hleads)] at hb
  obtain ⟨innerBindings, hinner⟩ : ∃ innerBindings,
      Binding.ofGroups m.schema target (qualify base name)
        (NameTree.ofSteps (NameTree.rests name names)).children = .ok innerBindings :=
    Binding.ofGroups_ok (schema_proper hm) hleads
  rw [hinner] at hb
  cases hb
  rw [Binding.value, hget] at hvalue
  rw [get?_sparse hm hbindings hdecl, hvalue, hget]
  obtain ⟨hnull, d', hd', hencode⟩ | ⟨inner, htyped, hencode, hback⟩ :=
    encode_object hd (apart_of_member? hm hdecl) hobject
  · left
    rw [hnull, readMember, Option.bind_some, hd', Option.getD_some, hencode]
    exact ⟨rfl, rfl⟩
  · right
    obtain ⟨d', hd', hencode'⟩ :=
      hback (Record.ofPairs (Binding.values (m.toRecord target (.entity inner)) innerBindings))
    refine ⟨inner, innerBindings, htyped, hinner, by rw [hencode], ?_⟩
    rw [hencode, readMember, Option.bind_some, hd', Option.getD_some, hencode', sparse]

/-- Below an object of which nothing is projected are null and defaults. -/
theorem at?_sparse_untouched (hm : m.Supported)
    (hbindings : Binding.ofGroups m.schema e base (NameTree.ofSteps names).children = .ok bindings)
    (htyped : m.Typed (.entity e) (.entity members)) (hdecl : m.member? e name = some decl)
    (hobject : decl.type.typeRef = .object target nullable) {rest : List String}
    (hrest : m.schema.Leads target rest) (hnone : NameTree.rests name names = []) :
    (m.sparse e bindings (.entity members)).at? (name :: rest) = some .null ∨
      (m.sparse e bindings (.entity members)).at? (name :: rest) =
        m.defaultAt? e (name :: rest) := by
  have hget := get?_sparse_untouched hm hbindings hdecl (.entity members) hnone
  obtain ⟨d, hd, -⟩ := get?_toRecord_typed hm htyped hdecl
  obtain hnull | ⟨hheld, hencode⟩ := encode_untouched hobject
  · left
    rw [hnull] at hget
    exact Record.at?_null hget rest
  · have hacc := acc_of_typed hd hheld
    have huntouched := at?_untouched hm hrest hacc
    rw [untouched_entity hacc] at huntouched
    rw [hencode, untouched_entity hacc, encode] at hget
    rw [Record.at?_object hrest.ne_nil hget, defaultAt?_object hrest.ne_nil hdecl hobject]
    exact huntouched

/-- An entity that is read from a projected record has the values of the whole entity at the
projected paths, and is null or has defaults at other paths. -/
theorem at?_sparse (hm : m.Supported) {e : m.schema.Ty} {steps : List String}
    (h : m.schema.Leads e steps)
    (hnames : ∀ l ∈ names, m.schema.Leads e l)
    (hbindings : Binding.ofGroups m.schema e base (NameTree.ofSteps names).children = .ok bindings)
    (htyped : m.Typed (.entity e) (.entity members)) :
    (steps ∈ names →
        (m.sparse e bindings (.entity members)).at? steps =
          (m.toRecord e (.entity members)).at? steps) ∧
      (steps ∉ names →
        (m.sparse e bindings (.entity members)).at? steps = some .null ∨
          (m.sparse e bindings (.entity members)).at? steps = m.defaultAt? e steps) := by
  induction h generalizing names base bindings members with
  | @scalar e name kind nullable hmember =>
    obtain ⟨decl, hdecl, hscalar⟩ := exists_decl hmember
    constructor
    · intro hmem
      have hsome : NameTree.rests name names ≠ [] :=
        List.ne_nil_of_mem (NameTree.mem_rests.mpr hmem)
      rw [Record.at?, Record.at?,
        get?_sparse_scalar hm hbindings htyped hdecl hscalar hsome]
    · intro hnot
      right
      have hnone : NameTree.rests name names = [] := Binding.rests_scalar hnames hmember hnot
      rw [Record.at?_singleton (get?_sparse_untouched hm hbindings hdecl _ hnone), defaultAt?,
        declAt?, hdecl]
      rfl
  | @object e target name nullable rest hmember hrest ih =>
    obtain ⟨decl, hdecl, hobject⟩ := exists_decl hmember
    have hmem : name :: rest ∈ names ↔ rest ∈ NameTree.rests name names := NameTree.mem_rests.symm
    rw [hmem]
    by_cases hsome : NameTree.rests name names = []
    · rw [hsome]
      refine ⟨fun h => absurd h List.not_mem_nil, ?_⟩
      intro _
      exact at?_sparse_untouched hm hbindings htyped hdecl hobject hrest hsome
    · obtain ⟨hnull, hsparse⟩ | ⟨inner, innerBindings, hinner, hok, hget, hsparse⟩ :=
        get?_sparse_object hm hnames hbindings htyped hdecl hobject hsome
      · rw [Record.at?_null hnull, Record.at?_null hsparse]
        exact ⟨fun _ => rfl, fun _ => Or.inl rfl⟩
      · rw [Record.at?_object hrest.ne_nil hget, Record.at?_object hrest.ne_nil hsparse,
          defaultAt?_object hrest.ne_nil hdecl hobject]
        exact ih (Binding.rests_lead hnames hmember) hok hinner

end EntityModel

end EntityQuery
