import Mathlib.Data.List.Nodup
import Mathlib.Tactic.Common
import EntityQuery.Path.Discovery

/-!
# Paths that lead to scalars

The discovered paths of a schema with proper names lead from the root type through objects to scalar
members, and no two of them have the same name.

* `Schema.Leads` — names that lead from a type to a scalar member.
* `Schema.Proper` — schemas whose names make up paths and differ within a type.
* `segments_qualify` — the names of a path below an object.
* `Schema.leads_of_resolve` — a name that resolves leads to a scalar member.
* `Schema.discover_leads`, `Schema.nodup_discover` — the paths below the members of a type.
* `Schema.paths_lead`, `Schema.nodup_paths` — the paths below a root type.
-/

namespace EntityQuery

/-! ### Names of paths -/

/-- The names of an object, of which the root has none. -/
def baseSteps (base : String) : List String := if base.isEmpty then [] else segments base

theorem segments_of_proper {name : String} (h : '.' ∉ name.toList) : segments name = [name] := by
  rw [segments, pieces_of_not_mem h, List.map_singleton, String.ofList_toList]

theorem qualify_ne_empty {base name : String} (h : name ≠ "") :
    (qualify base name).isEmpty = false := by
  rw [qualify]
  split
  · simpa [String.isEmpty_iff] using h
  · rename_i hbase
    simp [String.isEmpty_iff] at hbase ⊢

/-- A member is named by the names of its object and its own name. -/
theorem segments_qualify {base name : String} (h : '.' ∉ name.toList) :
    segments (qualify base name) = baseSteps base ++ [name] := by
  rw [qualify, baseSteps]
  split
  · exact segments_of_proper h
  · rw [segments_append, segments_of_proper h]

theorem baseSteps_qualify {base name : String} (hname : name ≠ "") (h : '.' ∉ name.toList) :
    baseSteps (qualify base name) = baseSteps base ++ [name] := by
  rw [baseSteps, qualify_ne_empty hname, if_neg Bool.false_ne_true, segments_qualify h]

namespace Schema

variable {s : Schema}

/-- The names lead from a type through objects to a scalar member. -/
inductive Leads (s : Schema) : s.Ty → List String → Prop where
  | scalar {t : s.Ty} {name : String} {kind : Kind} {nullable : Bool} :
      (s.decl t).member? name = some (.scalar kind nullable) → Leads s t [name]
  | object {t target : s.Ty} {name : String} {nullable : Bool} {rest : List String} :
      (s.decl t).member? name = some (.object target nullable) → Leads s target rest →
      Leads s t (name :: rest)

theorem Leads.ne_nil {t : s.Ty} {steps : List String} (h : s.Leads t steps) : steps ≠ [] := by
  cases h <;> exact List.cons_ne_nil _ _

/-- Schemas whose member names are not empty, have no dots and differ within a type. -/
structure Proper (s : Schema) : Prop where
  named : ∀ t, ∀ member ∈ (s.decl t).members, member.name ≠ "" ∧ '.' ∉ member.name.toList
  distinct : ∀ t, ((s.decl t).members.map (·.name)).Nodup

theorem mem_of_member? {d : TypeDecl s.size} {name : String} {type : TypeRef s.size}
    (h : d.member? name = some type) : ⟨name, type⟩ ∈ d.members := by
  obtain ⟨member, hfind, rfl⟩ := Option.map_eq_some_iff.mp h
  have hname := List.find?_some (p := fun m : Member s.size => m.name == name) hfind
  rw [← beq_iff_eq.mp hname]
  exact List.mem_of_find?_eq_some hfind

theorem Proper.name_ne_empty (hs : s.Proper) {t : s.Ty} {name : String} {type : TypeRef s.size}
    (h : (s.decl t).member? name = some type) : name ≠ "" :=
  (hs.named t _ (mem_of_member? h)).1

/-- Of different names every one has its own type. -/
theorem member?_of_mem {d : TypeDecl s.size} (hnodup : (d.members.map (·.name)).Nodup)
    {member : Member s.size} (h : member ∈ d.members) :
    d.member? member.name = some member.type := by
  rw [TypeDecl.member?, Option.map_eq_some_iff]
  refine ⟨member, ?_, rfl⟩
  induction hd : d.members generalizing d with
  | nil => exact absurd (hd ▸ h) List.not_mem_nil
  | cons first others ih =>
    rw [hd] at hnodup h
    rw [List.map_cons, List.nodup_cons] at hnodup
    rcases List.mem_cons.mp h with rfl | h
    · exact List.find?_cons_of_pos (beq_self_eq_true _)
    · have hne : first.name ≠ member.name := fun heq =>
        hnodup.1 (heq ▸ List.mem_map_of_mem h)
      rw [List.find?_cons_of_neg (by simpa using hne)]
      exact ih (d := { d with members := others }) hnodup.2 h rfl

/-! ### Resolved paths -/

theorem leads_of_resolveFrom {full name : String} {rest walked : List String} {owner : s.Ty}
    {p : Path} (h : s.resolveFrom full owner walked name rest = .ok p) :
    s.Leads owner (name :: rest) := by
  fun_induction s.resolveFrom full owner walked name rest with
  | case2 owner walked name kind nullable hmember => exact .scalar hmember
  | case3 owner walked name target nullable next rest hmember ih =>
    exact .object hmember (ih h)
  | case1 => cases h
  | case4 => cases h
  | case5 => cases h

/-- A name that resolves leads to a scalar member, and its path has that name. -/
theorem leads_of_resolve {root : s.Ty} {name : String} {p : Path}
    (h : s.resolve root name = .ok p) : s.Leads root (segments name) ∧ p.fullName = name := by
  unfold resolve at h
  split at h
  · cases h
  · cases h
  · rename_i hsegments
    rw [hsegments]
    exact ⟨leads_of_resolveFrom h, fullName_of_resolveFrom h⟩

/-! ### Discovered paths -/

variable {limit : Option Nat}

/-- A path below the members of a type has the names of the type, the name of the member, and names
that lead on from there. -/
theorem discover_leads (hs : s.Proper) {way : List String} {owner base : String} {depth : Nat}
    {members : List (Member s.size)} {t : s.Ty} (hmembers : members ⊆ (s.decl t).members) :
    ∀ p ∈ s.discover limit way owner base depth members,
      ∃ member ∈ members, ∃ rest, segments p.fullName = baseSteps base ++ member.name :: rest ∧
        s.Leads t (member.name :: rest) := by
  induction way, owner, base, depth, members using discover.induct s limit generalizing t with
  | case1 way owner base depth =>
    intro p hp
    rw [discover] at hp
    cases hp
  | case2 way owner base depth name kind nullable members ih =>
    intro p hp
    rw [discover] at hp
    have hself : (⟨name, .scalar kind nullable⟩ : Member s.size) ∈ (s.decl t).members :=
      hmembers List.mem_cons_self
    rcases List.mem_cons.mp hp with rfl | hp
    · refine ⟨_, List.mem_cons_self, [], segments_qualify (hs.named t _ hself).2, ?_⟩
      exact .scalar (member?_of_mem (hs.distinct t) hself)
    · obtain ⟨member, hmember, hrest⟩ :=
        ih (fun _ h => hmembers (List.mem_cons_of_mem _ h)) p hp
      exact ⟨member, List.mem_cons_of_mem _ hmember, hrest⟩
  | case3 way owner base depth name element members ih =>
    intro p hp
    rw [discover] at hp
    obtain ⟨member, hmember, hrest⟩ := ih (fun _ h => hmembers (List.mem_cons_of_mem _ h)) p hp
    exact ⟨member, List.mem_cons_of_mem _ hmember, hrest⟩
  | case4 way owner base depth name target nullable members ihinner ih =>
    intro p hp
    rw [discover] at hp
    have hself : (⟨name, .object target nullable⟩ : Member s.size) ∈ (s.decl t).members :=
      hmembers List.mem_cons_self
    rcases List.mem_append.mp hp with hp | hp
    · split at hp
      · rename_i henters
        obtain ⟨inner, -, rest, hsegments, hleads⟩ :=
          ihinner henters (List.Subset.refl _) p hp
        obtain ⟨hne, hdot⟩ := hs.named t _ hself
        rw [baseSteps_qualify hne hdot, List.append_assoc, List.singleton_append] at hsegments
        exact ⟨_, List.mem_cons_self, _, hsegments,
          .object (member?_of_mem (hs.distinct t) hself) hleads⟩
      · cases hp
    · obtain ⟨member, hmember, hrest⟩ :=
        ih (fun _ h => hmembers (List.mem_cons_of_mem _ h)) p hp
      exact ⟨member, List.mem_cons_of_mem _ hmember, hrest⟩

/-- Paths below other members have other names. -/
theorem fullName_ne_of_discover (hs : s.Proper) {way : List String} {owner base : String}
    {depth : Nat} {members : List (Member s.size)} {t : s.Ty}
    (hmembers : members ⊆ (s.decl t).members)
    {name full : String} {rest : List String} (hname : name ∉ members.map (·.name))
    (hfull : segments full = baseSteps base ++ name :: rest) :
    full ∉ (s.discover limit way owner base depth members).map (·.fullName) := by
  intro h
  obtain ⟨p, hp, rfl⟩ := List.mem_map.mp h
  obtain ⟨member, hmember, others, hsegments, -⟩ := discover_leads hs hmembers p hp
  have hsame := List.append_cancel_left (hfull.symm.trans hsegments)
  exact hname ((List.cons.inj hsame).1 ▸ List.mem_map_of_mem hmember)

/-- No two paths below the members of a type have the same name. -/
theorem nodup_discover (hs : s.Proper) {way : List String} {owner base : String} {depth : Nat}
    {members : List (Member s.size)} {t : s.Ty} (hmembers : members ⊆ (s.decl t).members)
    (hnodup : (members.map (·.name)).Nodup) :
    ((s.discover limit way owner base depth members).map (·.fullName)).Nodup := by
  induction way, owner, base, depth, members using discover.induct s limit generalizing t with
  | case1 way owner base depth =>
    rw [discover]
    exact List.nodup_nil
  | case2 way owner base depth name kind nullable members ih =>
    rw [List.map_cons, List.nodup_cons] at hnodup
    have hothers : members ⊆ (s.decl t).members := fun _ h => hmembers (List.mem_cons_of_mem _ h)
    have hdot := (hs.named t _ (hmembers List.mem_cons_self)).2
    rw [discover, List.map_cons, List.nodup_cons]
    exact ⟨fullName_ne_of_discover hs hothers hnodup.1 (segments_qualify hdot),
      ih hothers hnodup.2⟩
  | case3 way owner base depth name element members ih =>
    rw [List.map_cons, List.nodup_cons] at hnodup
    rw [discover]
    exact ih (fun _ h => hmembers (List.mem_cons_of_mem _ h)) hnodup.2
  | case4 way owner base depth name target nullable members ihinner ih =>
    rw [List.map_cons, List.nodup_cons] at hnodup
    have hothers : members ⊆ (s.decl t).members := fun _ h => hmembers (List.mem_cons_of_mem _ h)
    obtain ⟨hne, hdot⟩ := hs.named t _ (hmembers List.mem_cons_self)
    rw [discover, List.map_append, List.nodup_append]
    refine ⟨?_, ih hothers hnodup.2, ?_⟩
    · split
      · rename_i henters
        exact ihinner henters (List.Subset.refl _) (hs.distinct target)
      · exact List.nodup_nil
    · intro full hfull other hother heq
      subst heq
      split at hfull
      · obtain ⟨p, hp, rfl⟩ := List.mem_map.mp hfull
        obtain ⟨inner, -, rest, hsegments, -⟩ :=
          discover_leads hs (List.Subset.refl (s.decl target).members) p hp
        rw [baseSteps_qualify hne hdot, List.append_assoc, List.singleton_append] at hsegments
        exact fullName_ne_of_discover hs hothers hnodup.1 hsegments hother
      · cases hfull

/-! ### Paths of a root type -/

/-- Every path below a root type leads to a scalar member. -/
theorem paths_lead (hs : s.Proper) (root : s.Ty) :
    ∀ p ∈ s.paths root limit, s.Leads root (segments p.fullName) := by
  intro p hp
  rw [paths] at hp
  obtain ⟨member, -, rest, hsegments, hleads⟩ := discover_leads hs (List.Subset.refl _) p hp
  rw [show baseSteps "" = [] from rfl, List.nil_append] at hsegments
  rwa [hsegments]

/-- No two paths below a root type have the same name. -/
theorem nodup_paths (hs : s.Proper) (root : s.Ty) :
    ((s.paths root limit).map (·.fullName)).Nodup :=
  nodup_discover hs (List.Subset.refl _) (hs.distinct root)

end Schema

end EntityQuery
