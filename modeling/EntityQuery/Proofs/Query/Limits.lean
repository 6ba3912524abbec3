import EntityQuery.Catalogue.Basic
import EntityQuery.Proofs.List.Mapping
import EntityQuery.Proofs.Query.Offered

/-!
# Depth limits of settings

Settings have a depth limit for filters without a limit of their own. A plan takes it over into the
filters that it has when it follows the settings, and a catalogue starts with it. A filter that is
given afterwards replaces the filter that has the limit, and comes without it.

* `Side` — selection and conditions, each with a filter of its own.
* `PlanStep.filter?`, `CatalogueStep.filter?` — the filter that is given in a step.
* `Plan.filter_foldl_step`, `Catalogue.filter_foldl_step` — of all filters that are given, the last one
  counts.
* `Query.Settled` — new queries with settings, and the filters that are given before and after them.
* `Query.limited_iff` — when such a query is within the limit of its settings.
-/

namespace EntityQuery

variable {m : EntityModel}

/-- What a filter is for. -/
inductive Side where
  | selection
  | conditions
  deriving DecidableEq, Repr

/-! ### Filters in steps -/

/-- The filter of a plan. -/
def Plan.filter (p : Plan) : Side → PathFilter
  | .selection => p.selectFilter
  | .conditions => p.conditionFilter

/-- The filter of a catalogue. -/
def Catalogue.filter (c : Catalogue m) : Side → PathFilter
  | .selection => c.options.select
  | .conditions => c.options.conditions

/-- The filter that is given in a step. -/
def PlanStep.filter? : Side → PlanStep → Option PathFilter
  | .selection, .selectFilter f => some f
  | .conditions, .conditionFilter f => some f
  | _, _ => none

/-- Whether a plan follows settings in a step. -/
def PlanStep.isSettings : PlanStep → Bool
  | .settings _ => true
  | _ => false

/-- The filter that is given in a step. -/
def CatalogueStep.filter? : Side → CatalogueStep m → Option PathFilter
  | .selection, .options o => some o.select
  | .conditions, .options o => some o.conditions
  | .selection, .select f => some f
  | .conditions, .conditions f => some f
  | _, _ => none

namespace Plan

theorem filter_withSettings (p : Plan) (side : Side) (s : Settings) :
    (p.withSettings s).filter side = (p.filter side).orDepth s.maxDepth := by
  cases side <;> rfl

/-- Between settings, the filter that is given last counts. -/
theorem filter_foldl_step (p : Plan) (side : Side) {steps : List PlanStep}
    (h : ∀ t ∈ steps, t.isSettings = false) :
    (steps.foldl step p).filter side =
      (steps.filterMap (PlanStep.filter? side)).getLastD (p.filter side) := by
  refine foldl_eq_getLastD (filter · side) (fun t ht p => ?_) p
  cases t with
  | settings s => cases h _ ht
  | _ => cases side <;> rfl

/-- Settings give their limit to the filter that was given last before them. -/
theorem filter_ofSteps {before after : List PlanStep} (s : Settings) (side : Side)
    (honce : ∀ t ∈ before ++ after, t.isSettings = false) :
    (ofSteps (before ++ .settings s :: after)).filter side =
      (after.filterMap (PlanStep.filter? side)).getLastD
        (((before.filterMap (PlanStep.filter? side)).getLastD {}).orDepth s.maxDepth) := by
  have hdefault : filter {} side = {} := by cases side <;> rfl
  rw [List.forall_mem_append] at honce
  rw [ofSteps, List.foldl_append, List.foldl_cons, filter_foldl_step _ side honce.2, step,
    filter_withSettings, filter_foldl_step _ side honce.1, hdefault]

end Plan

/-- A catalogue starts with the limit of its settings. -/
theorem Catalogue.filter_foldl_step (s : Settings) (side : Side)
    (steps : List (CatalogueStep m)) :
    (steps.foldl step (ofSettings s)).filter side =
      (steps.filterMap (CatalogueStep.filter? side)).getLastD
        (PathFilter.orDepth {} s.maxDepth) := by
  have hstart : (ofSettings s : Catalogue m).filter side = PathFilter.orDepth {} s.maxDepth := by
    cases side <;> rfl
  rw [← hstart]
  refine foldl_eq_getLastD (filter · side) (fun t _ c => ?_) _
  cases t <;> cases side <;> rfl

/-! ### Queries with settings -/

/-- Without a limit of its own, a filter keeps with a limit what it keeps without one within the
limit. -/
theorem PathFilter.allows_orDepth {f : PathFilter} (h : f.maxDepth = none) (d : Nat) (p : Path) :
    (f.orDepth (some d)).allows p = (f.allows p && p.depth ≤ d) := by
  rw [allows, allows, orDepth, h]
  exact Bool.and_comm _ _

namespace Query

variable {s : Settings} {side : Side} {given later : List PathFilter} {q : Query m}

/-- The paths that a query offers. -/
def offered (q : Query m) : Side → List Path
  | .selection => q.selectables.map (·.path)
  | .conditions => q.conditionPaths

/-- A query that was built with settings: by a plan that follows them once, or by a catalogue that
starts with them. Some filters were given before the settings and some later. -/
inductive Settled (s : Settings) (side : Side) :
    List PathFilter → List PathFilter → Query m → Prop
  | plan {before after : List PlanStep} {e : m.Ty} {q : Query m}
      (honce : ∀ t ∈ before ++ after, t.isSettings = false)
      (h : (Plan.ofSteps (before ++ .settings s :: after)).build m e = .ok q) :
      Settled s side (before.filterMap (PlanStep.filter? side))
        (after.filterMap (PlanStep.filter? side)) q
  | catalogue {steps : List (CatalogueStep m)} {e : m.Ty} {q : Query m}
      (h : ((steps.foldl Catalogue.step (.ofSettings s)).build e).1 = .ok q) :
      Settled s side [] (steps.filterMap (CatalogueStep.filter? side)) q
  | named {steps : List (CatalogueStep m)} {name : String} {q : Query m}
      (h : ((steps.foldl Catalogue.step (.ofSettings s)).buildFor name).1 = .ok q) :
      Settled s side [] (steps.filterMap (CatalogueStep.filter? side)) q

/-- A query of a plan offers what the filters of the plan keep of all paths. -/
theorem offered_build {plan : Plan} {e : m.Ty} (h : plan.build m e = .ok q) (side : Side) :
    q.offered side =
      (Walk.start m.schema q.entity none).toList.filter (plan.filter side).allows := by
  rw [Plan.build] at h
  split at h
  · cases h
  · split at h
    · cases h
    · cases h
      rw [Walk.toList_start, ← Schema.filter_paths_maxDepth]
      cases side with
      | selection => exact (List.map_map ..).trans (List.map_id _)
      | conditions => rfl

/-- A query of a catalogue offers what the filters of the catalogue keep of all paths. -/
theorem offered_catalogue {c : Catalogue m} {e : m.Ty} (h : (c.build e).1 = .ok q) (side : Side) :
    q.offered side = (Walk.start m.schema q.entity none).toList.filter (c.filter side).allows := by
  rw [Catalogue.build] at h
  split at h
  · cases h
  next r _ =>
    have hplan : (c.plan (r.provider r.calls)).build m r.entity = .ok q := h
    have hfilter : (c.plan (r.provider r.calls)).filter side = c.filter side := by
      cases side <;> rfl
    rw [offered_build hplan, hfilter]

/-- The filters given before the settings have their limit, and those given later do not. -/
theorem Settled.offered (h : Settled s side given later q) :
    q.offered side = (Walk.start m.schema q.entity none).toList.filter
      (later.getLastD ((given.getLastD {}).orDepth s.maxDepth)).allows := by
  cases h with
  | plan honce h => rw [offered_build h, Plan.filter_ofSteps s side honce]
  | catalogue h =>
    rw [offered_catalogue h, Catalogue.filter_foldl_step]
    rfl
  | named h =>
    rw [Catalogue.buildFor] at h
    split at h
    · cases h
    · rw [offered_catalogue h, Catalogue.filter_foldl_step]
      rfl

/-- If the filter that was given last has no limit of its own, the limit of the settings holds just
in case no filter was given after them, or the last one keeps no path beyond the limit anyway. -/
theorem limited_iff {d : Nat} (hs : s.maxDepth = some d) (h : Settled s side given later q)
    (hlast : ((given ++ later).getLastD {}).maxDepth = none) :
    let f := (given ++ later).getLastD {}
    let found := (Walk.start m.schema q.entity none).toList
    (q.offered side =
        if later.isEmpty then found.filter (fun p => f.allows p && p.depth ≤ d)
        else found.filter f.allows) ∧
      ((∀ p ∈ q.offered side, p.depth ≤ d) ↔
        later = [] ∨ ∀ p ∈ found, f.allows p → p.depth ≤ d) := by
  have hoffered := h.offered
  rw [hs] at hoffered
  cases later with
  | nil =>
    rw [List.append_nil] at hlast ⊢
    intro f found
    have hwithin : q.offered side = found.filter fun p => f.allows p && p.depth ≤ d :=
      hoffered.trans (List.filter_congr fun p _ => PathFilter.allows_orDepth hlast d p)
    refine ⟨hwithin, iff_of_true (fun p hp => ?_) (Or.inl rfl)⟩
    rw [hwithin, List.mem_filter, Bool.and_eq_true] at hp
    exact of_decide_eq_true hp.2.2
  | cons g later =>
    rw [List.getLastD_cons] at hoffered
    have hlater : (given ++ g :: later).getLastD {} = later.getLastD g := by
      rw [List.getLastD_eq_getLast?, List.getLast?_append_of_ne_nil _ (List.cons_ne_nil g later),
        ← List.getLastD_eq_getLast?, List.getLastD_cons]
    rw [hlater]
    intro f found
    refine ⟨hoffered, ?_⟩
    rw [hoffered, or_iff_right (List.cons_ne_nil g later)]
    exact List.forall_mem_filter

/-- Names cannot be selected and cities are beyond the limit, so there is nothing to select. -/
theorem limited_iff_addressBook :
    let source : Source := .memory addressBook (0 : Fin 2) []
    let before : List PlanStep := [.source source, .selectFilter { excluded := ["name"] }]
    let after : List PlanStep := [.pageSize 5]
    ∃ q, (Plan.ofSteps (before ++ .settings { maxDepth := some 0 } :: after)).build addressBook
        (0 : Fin 2) = .ok q ∧
      ∀ p ∈ q.offered .selection, p.depth ≤ 0 := by
  intro source before after
  obtain ⟨q, hq⟩ : ∃ q, (Plan.ofSteps (before ++ .settings { maxDepth := some 0 } :: after)).build
      addressBook (0 : Fin 2) = .ok q := ⟨_, rfl⟩
  have honce : ∀ t ∈ before ++ after, t.isSettings = false := by decide
  have hsettled : Settled { maxDepth := some 0 } .selection [{ excluded := ["name"] }] [] q :=
    .plan honce hq
  exact ⟨q, hq, (limited_iff rfl hsettled rfl).2.mpr (Or.inl rfl)⟩

/-- A catalogue is given its filter after its settings. Cities are beyond the limit of the settings,
and can be selected. -/
theorem not_limited_of_later :
    ¬ ∀ (s : Settings) (d : Nat) (side : Side) (given later : List PathFilter)
      (q : Query addressBook), s.maxDepth = some d → Settled s side given later q →
      ((given ++ later).getLastD {}).maxDepth = none → ∀ p ∈ q.offered side, p.depth ≤ d := by
  intro h
  let steps : List (CatalogueStep addressBook) := [.select { excluded := ["name"] },
    .register (0 : Fin 2) fun _ => .memory addressBook (0 : Fin 2) []]
  let c : Catalogue addressBook := steps.foldl Catalogue.step (.ofSettings { maxDepth := some 0 })
  obtain ⟨q, hq⟩ : ∃ q, (c.build (0 : Fin 2)).1 = .ok q := ⟨_, rfl⟩
  have hsettled : Settled { maxDepth := some 0 } .selection [] [{ excluded := ["name"] }] q :=
    .catalogue hq
  have hentity : q.entity = (0 : Fin 2) := by
    cases hq
    rfl
  have hcity : ⟨"address.city", .text, false, "Address", 1⟩ ∈ q.offered .selection := by
    rw [hsettled.offered, Walk.toList_start]
    rw [paths_addressBook hentity]
    exact List.mem_filter.mpr ⟨List.mem_cons_of_mem _ List.mem_cons_self, by decide⟩
  exact absurd (h _ 0 _ _ _ q rfl hsettled rfl _ hcity) (by decide)

end Query

end EntityQuery
