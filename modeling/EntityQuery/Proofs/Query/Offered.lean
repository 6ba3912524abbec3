import EntityQuery.Proofs.Path.Iteration
import EntityQuery.Proofs.Query.Answers

/-!
# The paths that a planned query offers

A limit of depth cuts discovery short. What is left are the paths of unlimited discovery within the
limit, in their order, so that a planned query offers exactly those paths of unlimited discovery that
its filters keep.

* `Schema.discover_limit` — discovery within a limit.
* `PathFilter.allows_iff` — which paths a filter keeps.
* `Plan.build_offered` — the paths that a planned query offers.
-/

namespace EntityQuery

/-! ### Discovery within a limit -/

namespace Schema

variable {s : Schema} {limit : Option Nat} {way : List String} {owner base : String} {depth : Nat}
  {members : List (Member s.size)}

/-- A limit matters for the depth of an object only. -/
theorem enters_limit (t : s.Ty) :
    s.enters limit way depth t =
      (PathFilter.withinDepth limit depth && s.enters none way depth t) := rfl

/-- Paths below members are not above them. -/
theorem le_depth_of_mem_discover {p : Path}
    (h : p ∈ s.discover limit way owner base depth members) : depth ≤ p.depth := by
  induction way, owner, base, depth, members using discover.induct s limit with
  | case1 way owner base depth =>
    rw [discover] at h
    cases h
  | case2 way owner base depth name kind nullable members ih =>
    rw [discover] at h
    rcases List.mem_cons.mp h with rfl | h
    · exact Nat.le_refl depth
    · exact ih h
  | case3 way owner base depth name element members ih =>
    rw [discover] at h
    exact ih h
  | case4 way owner base depth name t nullable members ihinner ih =>
    rw [discover] at h
    rcases List.mem_append.mp h with h | h
    · split at h
      · rename_i henters
        exact Nat.le_of_succ_le (ihinner henters h)
      · cases h
    · exact ih h

theorem filter_discover_eq_nil (h : PathFilter.withinDepth limit depth = false) :
    (s.discover none way owner base depth members).filter
      (PathFilter.withinDepth limit ·.depth) = [] := by
  rw [List.filter_eq_nil_iff]
  intro p hp hwithin
  have hdepth := le_depth_of_mem_discover hp
  rw [PathFilter.withinDepth, Option.all_eq_true] at hwithin
  have hdeeper : PathFilter.withinDepth limit depth = true := by
    rw [PathFilter.withinDepth, Option.all_eq_true]
    intro max hmax
    exact decide_eq_true (hdepth.trans (of_decide_eq_true (hwithin max hmax)))
  rw [h] at hdeeper
  cases hdeeper

/-- Below members that are within a limit, discovery finds the paths within the limit. -/
theorem discover_limit (h : PathFilter.withinDepth limit depth = true) :
    s.discover limit way owner base depth members =
      (s.discover none way owner base depth members).filter
        (PathFilter.withinDepth limit ·.depth) := by
  induction way, owner, base, depth, members using discover.induct s none with
  | case1 way owner base depth => simp only [discover, List.filter_nil]
  | case2 way owner base depth name kind nullable members ih =>
    rw [discover, discover, List.filter_cons, if_pos h, ih h]
  | case3 way owner base depth name element members ih =>
    rw [discover, discover]
    exact ih h
  | case4 way owner base depth name t nullable members ihinner ih =>
    rw [discover, discover, List.filter_append, ← ih h, enters_limit]
    congr 1
    by_cases henters : s.enters none way (depth + 1) t = true
    · rw [henters, Bool.and_true, if_pos rfl]
      -- the limit may lie between the members of the type and those of the object
      cases hwithin : PathFilter.withinDepth limit (depth + 1) with
      | true => exact ihinner henters hwithin
      | false => exact (filter_discover_eq_nil hwithin).symm
    · rw [Bool.not_eq_true] at henters
      rw [henters, Bool.and_false, if_neg Bool.false_ne_true, if_neg Bool.false_ne_true,
        List.filter_nil]

/-- A filter keeps the same paths, in the same order, of discovery within its limit and of unlimited
discovery. -/
theorem filter_paths_maxDepth (s : Schema) (root : s.Ty) (f : PathFilter) :
    (s.paths root f.maxDepth).filter f.allows = (s.paths root none).filter f.allows := by
  have hroot : PathFilter.withinDepth f.maxDepth 0 = true := by
    rw [PathFilter.withinDepth, Option.all_eq_true]
    exact fun max _ => decide_eq_true (Nat.zero_le max)
  rw [paths, paths, discover_limit hroot, List.filter_filter]
  refine List.filter_congr fun p _ => ?_
  rw [PathFilter.allows, Bool.and_right_comm, Bool.and_self]

end Schema

/-! ### Filters -/

/-- A path is kept if it is no deeper than the limit, the type that declares it is not excluded, no
rule excludes it by leading segments, and some rule includes it so unless there are none. -/
theorem PathFilter.allows_iff (f : PathFilter) (p : Path) :
    f.allows p ↔ (∀ max, f.maxDepth = some max → p.depth ≤ max) ∧ p.owner ∉ f.excludedOwners ∧
      (∀ rule ∈ f.excluded, ¬ segments rule <+: segments p.fullName) ∧
      (f.included = [] ∨ ∃ rule ∈ f.included, segments rule <+: segments p.fullName) := by
  simp only [allows, withinDepth, Bool.and_eq_true, Option.all_eq_true, decide_eq_true_eq,
    Bool.not_eq_true', ← Bool.not_eq_true, List.contains_iff_mem, List.any_eq_true, Bool.or_eq_true,
    List.isEmpty_iff, ruleMatches_iff, not_exists, not_and]

/-! ### Planned queries -/

/-- A planned query offers for selection and for conditions exactly the paths of unlimited discovery
that its filters keep, in their order. The same holds of every schema. What a filter keeps is decided
by its limit, its excluded owners and the leading segments of its rules. -/
theorem Plan.build_offered {m : EntityModel} {e : m.Ty} {plan : Plan} {q : Query m}
    (h : plan.build m e = .ok q) :
    let found := (Walk.start m.schema e none).toList
    q.selectables.map (·.path) = found.filter plan.selectFilter.allows ∧
      q.conditionPaths = found.filter plan.conditionFilter.allows ∧
      (∀ (s : Schema) (root : s.Ty) (f : PathFilter),
        (Walk.start s root f.maxDepth).toList.filter f.allows =
          (Walk.start s root none).toList.filter f.allows) ∧
      ∀ (f : PathFilter) (p : Path), f.allows p ↔
        (∀ max, f.maxDepth = some max → p.depth ≤ max) ∧ p.owner ∉ f.excludedOwners ∧
          (∀ rule ∈ f.excluded, ¬ segments rule <+: segments p.fullName) ∧
          (f.included = [] ∨ ∃ rule ∈ f.included, segments rule <+: segments p.fullName) := by
  intro found
  have hfound : found = m.schema.paths e none := Walk.toList_start _ none
  rw [build] at h
  split at h
  · cases h
  · split at h
    · cases h
    · cases h
      refine ⟨?_, ?_, fun s root f => ?_, PathFilter.allows_iff⟩
      · rw [hfound, List.map_map, ← Schema.filter_paths_maxDepth]
        exact List.map_id _
      · rw [hfound, ← Schema.filter_paths_maxDepth]
        rfl
      · rw [Walk.toList_start, Walk.toList_start, Schema.filter_paths_maxDepth]

/-- Cities are not selected, and conditions are on people themselves. -/
theorem Plan.build_offered_addressBook :
    let plan : Plan := {
      source? := some (.memory Query.addressBook (0 : Fin 2) [])
      selectFilter := { excluded := ["address"] }
      conditionFilter := { maxDepth := some 0 } }
    ∃ q, plan.build Query.addressBook (0 : Fin 2) = .ok q ∧
      let found := (Walk.start Query.addressBook.schema (0 : Fin 2) none).toList
      q.selectables.map (·.path) = found.filter plan.selectFilter.allows ∧
        q.conditionPaths = found.filter plan.conditionFilter.allows := by
  intro plan
  obtain ⟨q, hq⟩ : ∃ q, plan.build Query.addressBook (0 : Fin 2) = .ok q := ⟨_, rfl⟩
  obtain ⟨hselect, hcondition, -⟩ := Plan.build_offered hq
  exact ⟨q, hq, hselect, hcondition⟩

end EntityQuery
