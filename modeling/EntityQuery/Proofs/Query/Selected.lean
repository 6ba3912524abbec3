import EntityQuery.Proofs.Projection.Leaves
import EntityQuery.Proofs.Query.Answering
import EntityQuery.Proofs.Query.Offered

/-!
# What a query selects

The selected paths of a query are a selection of the discovered ones, in the order of discovery. So its
projection copies exactly them in that order, and the objects that a source has to include are the same
whether they are computed from the selection or from the projection.

* `navigations_eq` — the objects on the way to paths, each once.
* `Query.Reached.selected_sublist` — what a query selects in any of its states.
* `Query.lists_selected` — projections list what was selected.
-/

namespace EntityQuery

/-- The last entry of a list counts if it has not occurred before. -/
theorem eraseDups_concat {α : Type} [DecidableEq α] (as : List α) (a : α) :
    (as ++ [a]).eraseDups = if as.contains a then as.eraseDups else as.eraseDups ++ [a] := by
  rw [List.eraseDups_append]
  by_cases h : a ∈ as
  · simp [List.removeAll, h]
  · simp [List.removeAll, h, List.eraseDups_cons]

/-- The objects on the way to paths, each once, in the order of their first occurrence. -/
theorem navigations_eq (ps : List Path) :
    navigations (ps.map (·.fullName)) = (ps.filterMap Path.navigation?).eraseDups := by
  induction ps using List.reverseRecOn with
  | nil => rfl
  | append_singleton ps p ih =>
    rw [navigations] at ih ⊢
    rw [List.map_append, List.map_singleton, List.foldl_append, ih, List.filterMap_append,
      List.foldl_cons, List.foldl_nil]
    cases hsteps : (segments p.fullName).dropLast with
    | nil =>
      have hnavigation : p.navigation? = none := by
        rw [Path.navigation?, show p.steps.dropLast = [] from hsteps]
      simp [hnavigation]
    | cons first rest =>
      have hnavigation : p.navigation? = some (dotted (first :: rest)) := by
        rw [Path.navigation?, show p.steps.dropLast = first :: rest from hsteps]
      rw [List.filterMap_cons_some hnavigation, List.filterMap_nil, eraseDups_concat]
      simp

namespace Query

variable {m : EntityModel} {start q : Query m}

/-- In every state of a query its selected paths are some of the discovered ones, in their order. -/
theorem Reached.selected_sublist (hstart : Built start) (h : Reached start q) :
    q.selected.Sublist (m.schema.paths q.entity none) := by
  obtain ⟨plan, e, hplan⟩ := hstart.planned
  obtain ⟨hentity, -, htree⟩ := build_spec hplan
  obtain ⟨factory, hfollows⟩ := h.follows htree
  obtain ⟨hoffered, -⟩ := Plan.build_offered hplan
  have hpaths : q.selectables.map (·.path) =
      (m.schema.paths e none).filter plan.selectFilter.allows := by
    rw [hfollows.paths, ← Walk.toList_start]
    exact hoffered
  have hq : q.entity = e := hfollows.entity.trans hentity
  have hselected : q.selected.Sublist (q.selectables.map (·.path)) := List.filter_sublist.map _
  rw [hq]
  exact (hpaths ▸ hselected).trans List.filter_sublist

/-- Projections list exactly what was selected. The projection of resolved paths copies these paths, none
twice. That of paths selected from the discovered ones copies them in their order. A query, however it
was built and whatever happened to it since, selects some of the discovered paths, so its projection
lists its selection; the objects that it includes are those of the paths that its projection copies, each
once and in the order of their first occurrence. -/
theorem lists_selected :
    (∀ (s : Schema) (root : s.Ty), s.Proper →
      (∀ ps : List Path, (∀ p ∈ ps, ∃ name, s.resolve root name = .ok p) →
        ∃ projection, Projection.ofPaths? s root ps = .ok projection ∧ projection.leafPaths.Nodup ∧
          ∀ name, name ∈ projection.leafPaths ↔ name ∈ ps.map (·.fullName)) ∧
      ∀ (limit : Option Nat) (ps : List Path), ps.Sublist (Walk.start s root limit).toList →
        ∃ projection, Projection.ofPaths? s root ps = .ok projection ∧
          projection.leafPaths = ps.map (·.fullName)) ∧
    ∀ (m : EntityModel) (start q : Query m), m.schema.Proper → Built start → Reached start q →
      ∃ projection, q.projection? = .ok projection ∧
        projection.leafPaths = q.selected.map (·.fullName) ∧
        q.includes = navigations projection.leafPaths ∧
        q.includes = (q.selected.filterMap Path.navigation?).eraseDups := by
  refine ⟨fun s root hs => ⟨fun ps => Projection.leafPaths_ofPaths? hs, fun limit ps hps => ?_⟩,
    fun m start q hs hstart hq => ?_⟩
  · rw [Walk.toList_start] at hps
    exact Projection.leafPaths_of_sublist hs hps
  · obtain ⟨projection, hprojection, hleaves⟩ :=
      Projection.leafPaths_of_sublist hs (hq.selected_sublist hstart)
    exact ⟨projection, hprojection, hleaves, by rw [hleaves]; rfl, navigations_eq q.selected⟩

/-- Two paths of people, one of them given twice; the discovered paths of people without those that an
address declares; and a query of people for which only cities are selected. -/
theorem lists_selected_people :
    let schema := Projection.staffSchema
    let staff : schema.Ty := (0 : Fin 3)
    let name : Path := ⟨"name", .text, false, "Person", 0⟩
    let city : Path := ⟨"address.city", .text, false, "Address", 1⟩
    let found := (Walk.start schema staff (some 1)).toList
    let person : addressBook.Ty := (0 : Fin 2)
    let plan : Plan := { source? := some (.memory addressBook person []) }
    schema.Proper ∧ addressBook.schema.Proper ∧
      (∃ projection, Projection.ofPaths? schema staff [city, name, city] = .ok projection ∧
        projection.leafPaths.Nodup ∧ "name" ∈ projection.leafPaths) ∧
      (∃ projection, Projection.ofPaths? schema staff (found.filter (·.owner != "Address")) =
          .ok projection ∧
        projection.leafPaths = (found.filter (·.owner != "Address")).map (·.fullName)) ∧
      ∃ start, plan.build addressBook person = .ok start ∧
        let q := start.change (.setSelected "name" false)
        Reached start q ∧ ∃ projection, q.projection? = .ok projection ∧
          projection.leafPaths = q.selected.map (·.fullName) ∧
          q.includes = navigations projection.leafPaths := by
  intro schema staff name city found person plan
  have hschema : schema.Proper := ⟨by decide, by decide⟩
  have hs : addressBook.schema.Proper := addressBook.schema_proper supported_addressBook
  obtain ⟨hprojection, hquery⟩ := lists_selected
  obtain ⟨hpaths, hdiscovered⟩ := hprojection schema staff hschema
  have hresolved : ∀ p ∈ [city, name, city], ∃ full, schema.resolve staff full = .ok p := by
    simp only [List.forall_mem_cons]
    exact ⟨⟨"address.city", rfl⟩, ⟨"name", rfl⟩, ⟨"address.city", rfl⟩, List.forall_mem_nil _⟩
  refine ⟨hschema, hs, ?_, hdiscovered (some 1) _ List.filter_sublist, _, rfl, ?_⟩
  · obtain ⟨projection, hprojection, hnodup, hmem⟩ := hpaths _ hresolved
    exact ⟨projection, hprojection, hnodup, (hmem "name").mpr (by simp [name])⟩
  · intro q
    have hreached : Reached _ q := Reached.start.change _
    obtain ⟨projection, hprojection, hleaves, hincludes, -⟩ :=
      hquery addressBook _ q hs (.plan (show plan.build addressBook person = _ from rfl)) hreached
    exact ⟨hreached, projection, hprojection, hleaves, hincludes⟩

end Query

end EntityQuery
