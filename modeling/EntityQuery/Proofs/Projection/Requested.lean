import EntityQuery.Proofs.Path.Resolution
import EntityQuery.Proofs.Projection.Agreement

/-!
# Requested names

What becomes of the names from which a projection is made. A name of a member that is reached through
object members is copied; the name of an object gives way to names that go on below the object. A name
that goes on below a collection is refused, as it is when it is resolved.

* `Schema.typeAt?` — the type of the member that names denote.
* `Schema.GoesBelow` — names that go on after a member.
* `Binding.exists_mem_allLeafPaths` — names with groups are copied, or replaced by names below them;
  `Binding.exists_mem_of_leads` for names that lead to scalar members.
* `Projection.keeps_requested` — what the projection of a list of names does with each of them.
-/

namespace EntityQuery

namespace Schema

variable {s : Schema} {t : s.Ty} {name : String} {steps rest before after : List String}
  {type other : TypeRef s.size}

/-! ### Members that names denote -/

/-- The type of the member that names denote: a member of a type, or one that is reached from it through
object members. -/
def typeAt? (s : Schema) : s.Ty → List String → Option (TypeRef s.size)
  | _, [] => none
  | t, [name] => (s.decl t).member? name
  | t, name :: next :: rest => (s.enter? t name).bind (s.typeAt? · (next :: rest))

/-- The names go on after a member of this type that they denote so far. -/
def GoesBelow (s : Schema) (t : s.Ty) (steps : List String) (type : TypeRef s.size) : Prop :=
  ∃ before after, steps = before ++ after ∧ after ≠ [] ∧ s.typeAt? t before = some type

theorem typeAt?_cons (hrest : rest ≠ []) :
    s.typeAt? t (name :: rest) = (s.enter? t name).bind (s.typeAt? · rest) := by
  obtain ⟨next, rest, rfl⟩ := List.exists_cons_of_ne_nil hrest
  rfl

/-- After a member names go on in the type of the object that it is. -/
theorem typeAt?_append (h : s.typeAt? t before = some type) (hafter : after ≠ []) :
    s.typeAt? t (before ++ after) = type.target?.bind (s.typeAt? · after) := by
  induction before generalizing t with
  | nil => cases h
  | cons name before ih =>
    have hne : before ++ after ≠ [] := List.append_ne_nil_of_right_ne_nil before hafter
    rw [List.cons_append, typeAt?_cons hne]
    by_cases hbefore : before = []
    · subst hbefore
      have hmember : (s.decl t).member? name = some type := h
      rw [enter?, hmember, Option.bind_some, List.nil_append]
    · rw [typeAt?_cons hbefore] at h
      obtain ⟨target, htarget, h⟩ := Option.bind_eq_some_iff.mp h
      rw [htarget, Option.bind_some, ih h]

/-- Names that go on after a member that is no object denote nothing. -/
theorem GoesBelow.typeAt? (h : s.GoesBelow t steps type) (htype : type.target? = none) :
    s.typeAt? t steps = none := by
  obtain ⟨before, after, rfl, hafter, hbefore⟩ := h
  rw [typeAt?_append hbefore hafter, htype, Option.bind_none]

/-- Names go on after one member only that is no object. -/
theorem GoesBelow.eq (h : s.GoesBelow t steps type) (htype : type.target? = none)
    (h' : s.GoesBelow t steps other) (hother : other.target? = none) : type = other := by
  obtain ⟨before, after, rfl, -, hbefore⟩ := h
  obtain ⟨before', after', hsteps, -, hbefore'⟩ := h'
  have hfirst (l : List String) : s.typeAt? t (before ++ l) = some other → l = [] := by
    intro hl
    by_contra hne
    rw [GoesBelow.typeAt? ⟨before, l, rfl, hne, hbefore⟩ htype] at hl
    cases hl
  have hsecond (l : List String) : s.typeAt? t (before' ++ l) = some type → l = [] := by
    intro hl
    by_contra hne
    rw [GoesBelow.typeAt? ⟨before', l, rfl, hne, hbefore'⟩ hother] at hl
    cases hl
  rcases List.append_eq_append_iff.mp hsteps with ⟨l, rfl, -⟩ | ⟨l, rfl, -⟩
  · rw [hfirst l hbefore', List.append_nil, hbefore] at hbefore'
    exact Option.some.inj hbefore'
  · rw [hsecond l hbefore, List.append_nil, hbefore'] at hbefore
    exact (Option.some.inj hbefore).symm

theorem GoesBelow.cons {target : s.Ty} (h : s.GoesBelow target steps type)
    (henter : s.enter? t name = some target) : s.GoesBelow t (name :: steps) type := by
  obtain ⟨before, after, rfl, hafter, hbefore⟩ := h
  refine ⟨name :: before, after, rfl, hafter, ?_⟩
  have hne : before ≠ [] := by
    rintro rfl
    cases hbefore
  rw [typeAt?_cons hne, henter, Option.bind_some, hbefore]

/-- The member that names denote is one of the type to which the names before the last lead. -/
theorem exists_through_of_typeAt? (h : s.typeAt? t steps = some type) :
    ∃ before last u, steps = before ++ [last] ∧ s.through? t before = some u ∧
      (s.decl u).member? last = some type := by
  induction steps generalizing t with
  | nil => cases h
  | cons name rest ih =>
    by_cases hrest : rest = []
    · subst hrest
      exact ⟨[], name, t, rfl, rfl, h⟩
    · rw [typeAt?_cons hrest] at h
      obtain ⟨target, htarget, h⟩ := Option.bind_eq_some_iff.mp h
      obtain ⟨before, last, u, rfl, hthrough, hmember⟩ := ih h
      exact ⟨name :: before, last, u, rfl, through?_cons.mpr ⟨target, htarget, hthrough⟩, hmember⟩

/-- Names that lead to a scalar member denote it. -/
theorem Leads.exists_typeAt? (h : s.Leads t steps) :
    ∃ kind nullable, s.typeAt? t steps = some (.scalar kind nullable) := by
  induction h with
  | scalar hmember => exact ⟨_, _, hmember⟩
  | object hmember hrest ih =>
    rw [typeAt?_cons hrest.ne_nil, enter?_eq_some.mpr ⟨_, hmember⟩, Option.bind_some]
    exact ih

end Schema

/-! ### Bindings of groups -/

namespace Binding

variable {s : Schema} {t : s.Ty} {base name : String} {names : List (List String)}
  {steps : List String} {bindings : List Binding}

theorem mem_allLeafPaths {full : String} :
    full ∈ allLeafPaths bindings ↔ ∃ b ∈ bindings, full ∈ b.leafPaths := by
  induction bindings with
  | nil => simp [allLeafPaths]
  | cons b bindings ih => simp [allLeafPaths, ih]

/-- If the groups of names have bindings, then every name denotes a member and is copied, unless it
goes on below a scalar, or it denotes an object below which another name goes on. -/
theorem exists_mem_allLeafPaths (hs : s.Proper)
    (h : ofGroups s t base (NameTree.ofSteps names).children = .ok bindings) (hmem : steps ∈ names)
    (hsteps : steps ≠ [])
    (hscalar : ∀ kind nullable, ¬ s.GoesBelow t steps (.scalar kind nullable)) :
    ∃ type, s.typeAt? t steps = some type ∧
      ((∃ full ∈ allLeafPaths bindings, segments full = baseSteps base ++ steps) ∨
        ∃ target, type.target? = some target ∧ ∃ other ∈ names, steps <+: other ∧ other ≠ steps) := by
  induction steps generalizing t base names bindings with
  | nil => exact absurd rfl hsteps
  | cons name rest ih =>
    have hrest : rest ∈ NameTree.rests name names := NameTree.mem_rests.mpr hmem
    have hlookup := NameTree.lookup_ofSteps name names
    rw [if_neg (List.ne_nil_of_mem hrest)] at hlookup
    obtain ⟨b, hb, hgroup, -⟩ := exists_mem_of_lookup h hlookup
    obtain ⟨type, hmember, hcases⟩ := ofGroup_ok hgroup
    obtain ⟨hne, hdot⟩ := hs.named t _ (Schema.mem_of_member? hmember)
    rcases hcases with ⟨hcopied, rfl⟩ | ⟨target, inner, htarget, hbelow, hinner, rfl⟩
    · -- the member is copied, and the name ends here
      have hend : rest = [] := by
        rcases hcopied with htype | hnone
        · by_contra hrest
          cases type with
          | scalar kind nullable => exact hscalar kind nullable ⟨[name], rest, rfl, hrest, hmember⟩
          | object | collection => cases htype
        · exact NameTree.children_ofSteps_eq_nil.mp hnone rest hrest
      subst hend
      refine ⟨type, hmember, .inl ⟨qualify base name, mem_allLeafPaths.mpr ⟨_, hb, ?_⟩, ?_⟩⟩
      · exact List.mem_singleton_self _
      · exact segments_qualify hdot
    · by_cases hend : rest = []
      · -- the name is that of the object, below which another name goes on
        subst hend
        obtain ⟨l, hl, hgoes⟩ : ∃ l ∈ NameTree.rests name names, l ≠ [] := by
          by_contra hnone
          exact hbelow (NameTree.children_ofSteps_eq_nil.mpr (by simpa using hnone))
        refine ⟨type, hmember, .inr ⟨target, htarget, name :: l, NameTree.mem_rests.mp hl,
          ⟨l, rfl⟩, by simpa using hgoes⟩⟩
      · have henter : s.enter? t name = some target := by
          rw [Schema.enter?, hmember, Option.bind_some, htarget]
        obtain ⟨type', htype', hkept⟩ := ih hinner hrest hend fun kind nullable hbelow =>
          hscalar kind nullable (hbelow.cons henter)
        refine ⟨type', by rw [Schema.typeAt?_cons hend, henter, Option.bind_some, htype'], ?_⟩
        rcases hkept with ⟨full, hfull, hsegments⟩ | ⟨target', htarget', other, hother, hprefix, hne'⟩
        · refine .inl ⟨full, mem_allLeafPaths.mpr ⟨_, hb, hfull⟩, ?_⟩
          rw [hsegments, baseSteps_qualify hne hdot, List.append_assoc, List.singleton_append]
        · exact .inr ⟨target', htarget', name :: other, NameTree.mem_rests.mp hother,
            List.cons_prefix_cons.mpr ⟨rfl, hprefix⟩, by simpa using hne'⟩

/-- The bindings of groups copy every name that leads to a scalar member. -/
theorem exists_mem_of_leads (hs : s.Proper)
    (h : ofGroups s t base (NameTree.ofSteps names).children = .ok bindings) (hmem : steps ∈ names)
    (hleads : s.Leads t steps) :
    ∃ full ∈ allLeafPaths bindings, segments full = baseSteps base ++ steps := by
  obtain ⟨kind, nullable, hscalar⟩ := hleads.exists_typeAt?
  obtain ⟨type, htype, hkept | ⟨target, htarget, -⟩⟩ :=
    exists_mem_allLeafPaths hs h hmem hleads.ne_nil fun _ _ hbelow => by
      rw [hbelow.typeAt? rfl] at hscalar
      cases hscalar
  · exact hkept
  · cases hscalar.symm.trans htype
    cases htarget

/-- The group of one name is made of what follows its first segment. -/
theorem children_ofSteps_singleton (name : String) (rest : List String) :
    (NameTree.ofSteps [name :: rest]).children = [(name, NameTree.ofSteps [rest])] := rfl

/-- A name that goes on below a collection is refused with the name of the collection. -/
theorem ofGroups_of_collection (hs : s.Proper) {before after : List String} {element : String}
    (h : s.typeAt? t before = some (.collection element)) (hafter : after ≠ []) :
    ofGroups s t base (NameTree.ofSteps [before ++ after]).children =
      .error (.notAnObject (dotted (baseSteps base ++ before))
        (s.typeName (.collection element))) := by
  induction before generalizing t base with
  | nil => cases h
  | cons name before ih =>
    rw [List.cons_append, children_ofSteps_singleton, ofGroups]
    by_cases hbefore : before = []
    · subst hbefore
      have hmember : (s.decl t).member? name = some (.collection element) := h
      obtain ⟨hne, hdot⟩ := hs.named t _ (Schema.mem_of_member? hmember)
      obtain ⟨next, rest, rfl⟩ := List.exists_cons_of_ne_nil hafter
      have hgroup : ofGroup s t base name (NameTree.ofSteps [next :: rest]) =
          .error (.notAnObject (qualify base name) (s.typeName (.collection element))) := by
        show ofGroup s t base name (.node [(next, NameTree.ofSteps [rest])]) = _
        rw [ofGroup, if_neg (by simpa [String.isEmpty_iff] using hne), hmember]
        rfl
      rw [List.nil_append, hgroup, ← segments_qualify hdot, dotted_segments]
    · rw [Schema.typeAt?_cons hbefore] at h
      obtain ⟨target, henter, h⟩ := Option.bind_eq_some_iff.mp h
      obtain ⟨nullable, hmember⟩ := Schema.enter?_eq_some.mp henter
      obtain ⟨hne, hdot⟩ := hs.named t _ (Schema.mem_of_member? hmember)
      have hbelow : (NameTree.ofSteps [before ++ after]).children ≠ [] := fun hnone =>
        List.append_ne_nil_of_right_ne_nil before hafter
          (NameTree.children_ofSteps_eq_nil.mp hnone _ (List.mem_singleton_self _))
      rw [ofGroup_object hne hmember hbelow, ih h, baseSteps_qualify hne hdot, List.append_assoc,
        List.singleton_append]
      rfl

end Binding

namespace Projection

variable {s : Schema} {root : s.Ty} {name : String} {names : List String}

/-- A name that goes on below a collection is refused for the same reason for which it does not
resolve. -/
theorem ofNames?_of_collection (hs : s.Proper) {element : String}
    (h : s.GoesBelow root (segments name) (.collection element)) :
    ∃ path, s.resolve root name = .error (.notAnObject path (s.typeName (.collection element))) ∧
      ofNames? s root [name] = .error (.notAnObject path (s.typeName (.collection element))) := by
  obtain ⟨before, after, hsegments, hafter, hbefore⟩ := h
  refine ⟨dotted before, ?_, ?_⟩
  · obtain ⟨init, last, u, rfl, hthrough, hmember⟩ := Schema.exists_through_of_typeAt? hbefore
    obtain ⟨next, after, rfl⟩ := List.exists_cons_of_ne_nil hafter
    have hname : name ≠ "" := by
      rintro rfl
      have hlength := congrArg List.length hsegments
      simp [segments, pieces, cut] at hlength
      omega
    rw [List.append_assoc, List.singleton_append] at hsegments
    exact (Schema.resolve_eq_error_iff hname).mpr
      ⟨init, last, next :: after, u, hsegments, hthrough, .notAnObject hmember rfl⟩
  · rw [ofNames?_eq, List.map_singleton, hsegments, Binding.ofGroups_of_collection hs hbefore hafter]
    rfl

/-- No requested name is lost. If a list of names has a projection, then each of them that does not go on
below a scalar denotes a member that is reached through object members, and it is among the copied paths
unless it is the name of an object and another name of the list goes on below it. A name that goes on
below a collection has no place in any such list, and by itself is refused for the reason for which it
does not resolve. -/
theorem keeps_requested (hs : s.Proper) (root : s.Ty) :
    (∀ names projection, ofNames? s root names = .ok projection → ∀ name ∈ names,
      (∀ kind nullable, ¬ s.GoesBelow root (segments name) (.scalar kind nullable)) →
      ∃ type, s.typeAt? root (segments name) = some type ∧
        (name ∈ projection.leafPaths ∨
          ∃ target nullable, type = .object target nullable ∧
            ∃ other ∈ names, other ≠ name ∧ segments name <+: segments other)) ∧
      ∀ name element, s.GoesBelow root (segments name) (.collection element) →
        (∀ names, name ∈ names → ∃ err, ofNames? s root names = .error err) ∧
        ∃ path, s.resolve root name =
            .error (.notAnObject path (s.typeName (.collection element))) ∧
          ofNames? s root [name] =
            .error (.notAnObject path (s.typeName (.collection element))) := by
  have hkept : ∀ names projection, ofNames? s root names = .ok projection → ∀ name ∈ names,
      (∀ kind nullable, ¬ s.GoesBelow root (segments name) (.scalar kind nullable)) →
      ∃ type, s.typeAt? root (segments name) = some type ∧
        (name ∈ projection.leafPaths ∨
          ∃ target nullable, type = .object target nullable ∧
            ∃ other ∈ names, other ≠ name ∧ segments name <+: segments other) := by
    intro names projection h name hname hscalar
    rw [ofNames?_eq] at h
    cases hbindings : Binding.ofGroups s root "" (NameTree.ofSteps (names.map segments)).children with
    | error err => rw [hbindings] at h; cases h
    | ok bindings =>
      rw [hbindings] at h
      cases h
      obtain ⟨type, htype, hcases⟩ := Binding.exists_mem_allLeafPaths hs hbindings
        (List.mem_map_of_mem hname) (segments_ne_nil name) hscalar
      refine ⟨type, htype, ?_⟩
      rcases hcases with ⟨full, hfull, hsegments⟩ | ⟨target, htarget, steps, hsteps, hprefix, hne⟩
      · exact .inl (segments_inj hsegments ▸ hfull)
      · obtain ⟨other, hother, rfl⟩ := List.mem_map.mp hsteps
        refine .inr ?_
        cases type with
        | object target' nullable =>
          exact ⟨target', nullable, rfl, other, hother, fun heq => hne (congrArg segments heq), hprefix⟩
        | scalar | collection => cases htarget
  refine ⟨hkept, fun name element hbelow => ⟨fun names hname => ?_, ofNames?_of_collection hs hbelow⟩⟩
  cases h : ofNames? s root names with
  | error err => exact ⟨err, rfl⟩
  | ok projection =>
    obtain ⟨type, htype, -⟩ := hkept names projection h name hname fun kind nullable hscalar => by
      cases hbelow.eq rfl hscalar rfl
    rw [hbelow.typeAt? rfl] at htype
    cases htype

/-- Customers with a name, some orders, and an address in a city of a country; an order has a total. -/
def customerSchema : Schema where
  size := 4
  types := #v[
    ⟨"Customer", "Customer",
      [⟨"name", .scalar .text false⟩, ⟨"orders", .collection "Order"⟩, ⟨"address", .object 1 false⟩]⟩,
    ⟨"Address", "Address", [⟨"city", .scalar .text false⟩, ⟨"country", .object 2 true⟩]⟩,
    ⟨"Country", "Country", [⟨"code", .scalar .text false⟩]⟩,
    ⟨"Order", "Order", [⟨"total", .scalar .decimal false⟩]⟩]

/-- A projection that is known by the paths that it copies. -/
theorem exists_of_leafPaths {paths : List String}
    (h : (ofNames? s root names).toOption.map leafPaths = some paths) :
    ∃ projection, ofNames? s root names = .ok projection ∧ projection.leafPaths = paths := by
  cases hnames : ofNames? s root names with
  | error err =>
    rw [hnames] at h
    cases h
  | ok projection =>
    rw [hnames] at h
    exact ⟨projection, rfl, Option.some.inj h⟩

/-- The name of an object is not among the copied paths if a name below the object is requested too. -/
theorem not_keeps_objectName :
    customerSchema.Proper ∧
      ∃ projection, ofNames? customerSchema (0 : Fin 4) ["address", "address.city"] = .ok projection ∧
        "address" ∉ projection.leafPaths := by
  have hcopied : (ofNames? customerSchema (0 : Fin 4) ["address", "address.city"]).toOption.map
      leafPaths = some ["address.city"] := by decide +kernel
  obtain ⟨projection, hprojection, hpaths⟩ := exists_of_leafPaths hcopied
  exact ⟨⟨by decide, by decide⟩, projection, hprojection, by rw [hpaths]; decide⟩

/-- Whole addresses are kept next to orders and names. A name below the orders is refused. -/
theorem keeps_requested_customer :
    customerSchema.Proper ∧
      (∃ projection, ofNames? customerSchema (0 : Fin 4) ["orders", "address", "name"] =
          .ok projection ∧ "address" ∈ projection.leafPaths) ∧
      ∃ path, customerSchema.resolve (0 : Fin 4) "orders.total" =
          .error (.notAnObject path "Vec<Order>") ∧
        ofNames? customerSchema (0 : Fin 4) ["orders.total"] =
          .error (.notAnObject path "Vec<Order>") := by
  have hs : customerSchema.Proper := ⟨by decide, by decide⟩
  obtain ⟨hkept, hrefused⟩ := keeps_requested hs (0 : Fin 4)
  have hcopied : (ofNames? customerSchema (0 : Fin 4) ["orders", "address", "name"]).toOption.map
      leafPaths = some ["orders", "address", "name"] := by decide +kernel
  obtain ⟨projection, hprojection, -⟩ := exists_of_leafPaths hcopied
  have hbelow : customerSchema.GoesBelow (0 : Fin 4) (segments "orders.total") (.collection "Order") :=
    ⟨["orders"], ["total"], rfl, by decide, rfl⟩
  have hobject (kind : Kind) (nullable : Bool) :
      ¬ customerSchema.GoesBelow (0 : Fin 4) (segments "address") (.scalar kind nullable) := by
    intro hscalar
    cases hscalar.typeAt? rfl
  refine ⟨hs, ⟨projection, hprojection, ?_⟩, (hrefused "orders.total" "Order" hbelow).2⟩
  obtain ⟨type, -, hleaf | ⟨target, nullable, -, other, hother, hne, hprefix⟩⟩ :=
    hkept ["orders", "address", "name"] projection hprojection "address" (by decide) hobject
  · exact hleaf
  · have halone : ∀ other ∈ ["orders", "address", "name"], other ≠ "address" →
        ¬ segments "address" <+: segments other := by decide
    exact absurd hprefix (halone other hother hne)

end Projection

end EntityQuery
