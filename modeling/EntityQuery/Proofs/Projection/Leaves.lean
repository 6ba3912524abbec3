import EntityQuery.Proofs.Projection.Requested

/-!
# The paths that a projection copies

A projection of paths copies each of them once. Paths that are given in the order in which discovery
finds them are copied in that order: the paths below one object are found one after the other, so
grouping them by their segments does not move them.

* `Binding.nodup_allLeafPaths` — no path is copied twice, and only paths of the list are.
* `NameTree.children_ofSteps_append` — names that follow one another in a group come first together.
* `Binding.allLeafPaths_of_sublist` — a selection of discovered paths keeps its order.
* `Projection.leafPaths_ofPaths?`, `Projection.leafPaths_of_sublist` — the same for projections.
-/

namespace EntityQuery

/-! ### Each path once -/

namespace Binding

variable {s : Schema} {t : s.Ty} {base name : String} {names : List (List String)}
  {groups : List (String × NameTree)} {bindings : List Binding}

/-- Groups of different segments copy different paths. -/
theorem nodup_of_groups (h : ofGroups s t base groups = .ok bindings)
    (hnodup : (groups.map (·.1)).Nodup)
    (hgroup : ∀ name group b, (name, group) ∈ groups → ofGroup s t base name group = .ok b →
      b.leafPaths.Nodup ∧ ∀ full ∈ b.leafPaths,
        ∃ rest, name :: rest ∈ names ∧ segments full = baseSteps base ++ name :: rest) :
    (allLeafPaths bindings).Nodup ∧ ∀ full ∈ allLeafPaths bindings,
      ∃ name ∈ groups.map (·.1), ∃ rest, name :: rest ∈ names ∧
        segments full = baseSteps base ++ name :: rest := by
  induction groups generalizing bindings with
  | nil =>
    cases h
    exact ⟨List.nodup_nil, fun _ hfull => nomatch hfull⟩
  | cons group groups ih =>
    obtain ⟨name, group⟩ := group
    obtain ⟨b, others, hb, hothers, rfl⟩ := ofGroups_cons_ok h
    rw [List.map_cons, List.nodup_cons] at hnodup
    obtain ⟨hfirst, hleaves⟩ := hgroup name group b List.mem_cons_self hb
    obtain ⟨hrest, hleaves'⟩ := ih hothers hnodup.2 fun name group b hmem =>
      hgroup name group b (List.mem_cons_of_mem _ hmem)
    rw [allLeafPaths]
    refine ⟨List.nodup_append.mpr ⟨hfirst, hrest, ?_⟩, fun full hfull => ?_⟩
    · -- the segment after the object differs
      rintro full hfull _ hother rfl
      obtain ⟨rest, -, hsegments⟩ := hleaves full hfull
      obtain ⟨name', hname', rest', -, hsegments'⟩ := hleaves' full hother
      have hsame := List.append_cancel_left (hsegments.symm.trans hsegments')
      exact hnodup.1 ((List.cons.inj hsame).1 ▸ hname')
    · rcases List.mem_append.mp hfull with hfull | hfull
      · exact ⟨name, List.mem_cons_self, hleaves full hfull⟩
      · obtain ⟨name', hname', hrest'⟩ := hleaves' full hfull
        exact ⟨name', List.mem_cons_of_mem _ hname', hrest'⟩

/-- Bindings of names that lead to scalar members copy no path twice, and only paths of these names. -/
theorem nodup_allLeafPaths (hs : s.Proper) (h : ∀ l ∈ names, s.Leads t l)
    (hbindings : ofGroups s t base (NameTree.ofSteps names).children = .ok bindings) :
    (allLeafPaths bindings).Nodup ∧ ∀ full ∈ allLeafPaths bindings,
      ∃ steps ∈ names, segments full = baseSteps base ++ steps := by
  obtain ⟨bound, hbound⟩ : ∃ bound, ∀ l ∈ names, l.length ≤ bound :=
    ⟨names.flatten.length, fun l hl => (List.sublist_flatten_of_mem hl).length_le⟩
  induction bound generalizing t base names bindings with
  | zero =>
    have hnames : names = [] := by
      rw [List.eq_nil_iff_forall_not_mem]
      intro l hl
      exact (h l hl).ne_nil (List.length_eq_zero_iff.mp (Nat.le_zero.mp (hbound l hl)))
    subst hnames
    cases hbindings
    exact ⟨List.nodup_nil, fun _ hfull => nomatch hfull⟩
  | succ bound ih =>
    have hgroup (name : String) (group : NameTree) (b : Binding)
        (hmem : (name, group) ∈ (NameTree.ofSteps names).children)
        (hb : ofGroup s t base name group = .ok b) :
        b.leafPaths.Nodup ∧ ∀ full ∈ b.leafPaths,
          ∃ rest, name :: rest ∈ names ∧ segments full = baseSteps base ++ name :: rest := by
      obtain ⟨hne, rfl⟩ := NameTree.of_mem_ofSteps hmem
      obtain ⟨rest, hrest⟩ := List.exists_mem_of_ne_nil _ hne
      have hname := NameTree.mem_rests.mp hrest
      cases h _ hname with
      | scalar hmember =>
        obtain ⟨hempty, hdot⟩ := hs.named t _ (Schema.mem_of_member? hmember)
        cases (ofGroup_scalar hempty hmember _).symm.trans hb
        rw [leafPaths]
        refine ⟨List.nodup_singleton _, fun full hfull => ?_⟩
        rw [List.mem_singleton.mp hfull]
        exact ⟨[], hname, segments_qualify hdot⟩
      | @object _ target _ nullable _ hmember _ =>
        obtain ⟨hempty, hdot⟩ := hs.named t _ (Schema.mem_of_member? hmember)
        have hleads := rests_lead h hmember
        obtain ⟨inner, hinner, rfl⟩ := ofGroup_object_ok hmember (children_ne_nil hne hleads) hb
        obtain ⟨hnodup, hleaves⟩ := ih hleads hinner fun l hl => by
          have hlength := hbound _ (NameTree.mem_rests.mp hl)
          rw [List.length_cons] at hlength
          omega
        rw [leafPaths]
        refine ⟨hnodup, fun full hfull => ?_⟩
        obtain ⟨steps, hsteps, hsegments⟩ := hleaves full hfull
        rw [baseSteps_qualify hempty hdot, List.append_assoc, List.singleton_append] at hsegments
        exact ⟨steps, NameTree.mem_rests.mp hsteps, hsegments⟩
    obtain ⟨hnodup, hleaves⟩ := nodup_of_groups hbindings (NameTree.nodup_ofSteps names) hgroup
    refine ⟨hnodup, fun full hfull => ?_⟩
    obtain ⟨name, -, rest, hmem, hsegments⟩ := hleaves full hfull
    exact ⟨name :: rest, hmem, hsegments⟩

end Binding

/-! ### Names that follow one another -/

namespace NameTree

/-- Names that start with another segment leave a group where it is. -/
theorem children_foldl_insert {name : String} {t : NameTree} {names : List (List String)}
    (h : ∀ l ∈ names, ∀ rest, l ≠ name :: rest) (groups : List (String × NameTree)) :
    (names.foldl (fun u l => insert l u) (.node ((name, t) :: groups))).children =
      (name, t) :: (names.foldl (fun u l => insert l u) (.node groups)).children := by
  induction names generalizing groups with
  | nil => rfl
  | cons l names ih =>
    rw [List.forall_mem_cons] at h
    rw [List.foldl_cons, List.foldl_cons]
    cases l with
    | nil => exact ih h.2 groups
    | cons first rest =>
      have hne : name ≠ first := fun heq => h.1 rest (by rw [heq])
      rw [insert, insert, alter, if_neg hne]
      exact ih h.2 _

/-- Names that start with one segment are added to its group. -/
theorem foldl_insert_map (name : String) (t : NameTree) (inner : List (List String)) :
    (inner.map (name :: ·)).foldl (fun u l => insert l u) (.node [(name, t)]) =
      .node [(name, inner.foldl (fun u l => insert l u) t)] := by
  induction inner generalizing t with
  | nil => rfl
  | cons l inner ih =>
    rw [List.map_cons, List.foldl_cons, List.foldl_cons, insert, alter, if_pos rfl, ih]

/-- The group of the segment with which the first names start comes first, if no other names start with
it. -/
theorem children_ofSteps_append {name : String} {inner names : List (List String)} (hinner : inner ≠ [])
    (h : ∀ l ∈ names, ∀ rest, l ≠ name :: rest) :
    (ofSteps (inner.map (name :: ·) ++ names)).children =
      (name, ofSteps inner) :: (ofSteps names).children := by
  obtain ⟨first, others, rfl⟩ := List.exists_cons_of_ne_nil hinner
  have hfirst : ofSteps ((first :: others).map (name :: ·)) = .node [(name, ofSteps (first :: others))] :=
    foldl_insert_map name (insert first leaf) others
  rw [ofSteps, List.foldl_append]
  show (names.foldl _ (ofSteps _)).children = _
  rw [hfirst, children_foldl_insert h]
  rfl

end NameTree

namespace Binding

variable {s : Schema} {limit : Option Nat}

/-- The names that lead to a path from an object. -/
def stepsFrom (base : String) (p : Path) : List String :=
  (segments p.fullName).drop (baseSteps base).length

theorem stepsFrom_of_segments {base : String} {p : Path} {steps : List String}
    (h : segments p.fullName = baseSteps base ++ steps) : stepsFrom base p = steps := by
  rw [stepsFrom, h, List.drop_left]

/-- Names that lead to paths below other members do not start with a name. -/
theorem stepsFrom_ne (hs : s.Proper) {way : List String} {owner base name : String} {depth : Nat}
    {members : List (Member s.size)} {t : s.Ty} (hmembers : members ⊆ (s.decl t).members)
    (hname : name ∉ members.map (·.name)) {ps : List Path}
    (hps : ps.Sublist (s.discover limit way owner base depth members)) :
    ∀ l ∈ ps.map (stepsFrom base), ∀ rest, l ≠ name :: rest := by
  rintro l hl rest rfl
  obtain ⟨p, hp, hsteps⟩ := List.mem_map.mp hl
  obtain ⟨member, hmember, after, hsegments, -⟩ :=
    Schema.discover_leads hs hmembers p (hps.subset hp)
  rw [stepsFrom_of_segments hsegments] at hsteps
  exact hname ((List.cons.inj hsteps).1 ▸ List.mem_map_of_mem hmember)

/-- Names that lead to paths below an object start with its name. -/
theorem stepsFrom_below (hs : s.Proper) {way : List String} {owner base name : String} {depth : Nat}
    {target : s.Ty} (hname : name ≠ "" ∧ '.' ∉ name.toList) {p : Path}
    (hp : p ∈ s.discover limit way owner (qualify base name) depth (s.decl target).members) :
    stepsFrom (qualify base name) p ≠ [] ∧
      stepsFrom base p = name :: stepsFrom (qualify base name) p := by
  obtain ⟨member, -, rest, hsegments, -⟩ :=
    Schema.discover_leads hs (List.Subset.refl _) p hp
  rw [stepsFrom_of_segments hsegments]
  rw [baseSteps_qualify hname.1 hname.2, List.append_assoc, List.singleton_append] at hsegments
  exact ⟨List.cons_ne_nil _ _, stepsFrom_of_segments hsegments⟩

/-- Paths that are selected from those below the members of a type are copied in the order in which they
are found. -/
theorem allLeafPaths_of_sublist (hs : s.Proper) {way : List String} {owner base : String} {depth : Nat}
    {members : List (Member s.size)} {t : s.Ty} (hmembers : members ⊆ (s.decl t).members)
    (hnodup : (members.map (·.name)).Nodup) {ps : List Path}
    (hps : ps.Sublist (s.discover limit way owner base depth members)) {bindings : List Binding}
    (hbindings : ofGroups s t base (NameTree.ofSteps (ps.map (stepsFrom base))).children =
      .ok bindings) :
    allLeafPaths bindings = ps.map (·.fullName) := by
  induction way, owner, base, depth, members using Schema.discover.induct s limit
    generalizing t ps bindings with
  | case1 way owner base depth =>
    rw [Schema.discover, List.sublist_nil] at hps
    subst hps
    cases hbindings
    rfl
  | case2 way owner base depth name kind nullable members ih =>
    rw [List.map_cons, List.nodup_cons] at hnodup
    have hothers : members ⊆ (s.decl t).members := fun _ h => hmembers (List.mem_cons_of_mem _ h)
    rw [Schema.discover, List.sublist_cons_iff] at hps
    rcases hps with hps | ⟨ps, rfl, hps⟩
    · exact ih hothers hnodup.2 hps hbindings
    · have hself := hmembers List.mem_cons_self
      obtain ⟨hne, hdot⟩ := hs.named t _ hself
      have hmember : (s.decl t).member? name = some (.scalar kind nullable) :=
        Schema.member?_of_mem (hs.distinct t) hself
      have hsteps : stepsFrom base ⟨qualify base name, kind, nullable, owner, depth⟩ = [name] :=
        stepsFrom_of_segments (segments_qualify hdot)
      have hgroups := NameTree.children_ofSteps_append (List.cons_ne_nil [] [])
        (stepsFrom_ne hs hothers hnodup.1 hps)
      rw [List.map_cons, hsteps] at hbindings
      obtain ⟨b, others, hb, hrest, rfl⟩ := ofGroups_cons_ok (hgroups ▸ hbindings)
      rw [ofGroup_scalar hne hmember] at hb
      cases hb
      rw [allLeafPaths, leafPaths, ih hothers hnodup.2 hps hrest]
      rfl
  | case3 way owner base depth name element members ih =>
    rw [List.map_cons, List.nodup_cons] at hnodup
    rw [Schema.discover] at hps
    exact ih (fun _ h => hmembers (List.mem_cons_of_mem _ h)) hnodup.2 hps hbindings
  | case4 way owner base depth name target nullable members ihinner ih =>
    rw [List.map_cons, List.nodup_cons] at hnodup
    have hothers : members ⊆ (s.decl t).members := fun _ h => hmembers (List.mem_cons_of_mem _ h)
    rw [Schema.discover] at hps
    obtain ⟨below, others, rfl, hbelow, hrest⟩ := List.sublist_append_iff.mp hps
    by_cases hsome : below = []
    · subst hsome
      rw [List.nil_append] at hbindings ⊢
      exact ih hothers hnodup.2 hrest hbindings
    · have hself := hmembers List.mem_cons_self
      have hmember : (s.decl t).member? name = some (.object target nullable) :=
        Schema.member?_of_mem (hs.distinct t) hself
      have henters : s.enters limit way (depth + 1) target := by
        by_contra hnot
        rw [if_neg hnot, List.sublist_nil] at hbelow
        exact hsome hbelow
      rw [if_pos henters] at hbelow
      -- the paths below the object are one group
      have hsteps : below.map (stepsFrom base) =
          (below.map (stepsFrom (qualify base name))).map (name :: ·) := by
        rw [List.map_map]
        exact List.map_congr_left fun p hp =>
          (stepsFrom_below hs (hs.named t _ hself) (hbelow.subset hp)).2
      have hgroup : (NameTree.ofSteps (below.map (stepsFrom (qualify base name)))).children ≠ [] := by
        obtain ⟨p, hp⟩ := List.exists_mem_of_ne_nil below hsome
        exact fun hnone => (stepsFrom_below hs (hs.named t _ hself) (hbelow.subset hp)).1
          (NameTree.children_ofSteps_eq_nil.mp hnone _ (List.mem_map_of_mem hp))
      rw [List.map_append, hsteps, NameTree.children_ofSteps_append (by simpa using hsome)
        (stepsFrom_ne hs hothers hnodup.1 hrest)] at hbindings
      obtain ⟨b, bindings, hb, hlater, rfl⟩ := ofGroups_cons_ok hbindings
      obtain ⟨inner, hinner, rfl⟩ := ofGroup_object_ok hmember hgroup hb
      rw [allLeafPaths, leafPaths, List.map_append,
        ihinner henters (List.Subset.refl _) (hs.distinct target) hbelow hinner,
        ih hothers hnodup.2 hrest hlater]

end Binding

/-! ### Projections of paths -/

namespace Projection

variable {s : Schema} {root : s.Ty} {ps : List Path}

/-- The projection of resolved paths copies these paths, each of them once. -/
theorem leafPaths_ofPaths? (hs : s.Proper) (h : ∀ p ∈ ps, ∃ name, s.resolve root name = .ok p) :
    ∃ projection, ofPaths? s root ps = .ok projection ∧ projection.leafPaths.Nodup ∧
      ∀ name, name ∈ projection.leafPaths ↔ name ∈ ps.map (·.fullName) := by
  have hleads : ∀ p ∈ ps, s.Leads root (segments p.fullName) := by
    intro p hp
    obtain ⟨name, hname⟩ := h p hp
    obtain ⟨hleads, rfl⟩ := Schema.leads_of_resolve hname
    exact hleads
  obtain ⟨bindings, hprojection, hbindings⟩ := exists_ofPaths? hs hleads
  obtain ⟨hnodup, hleaves⟩ := Binding.nodup_allLeafPaths hs (by simpa using hleads) hbindings
  refine ⟨_, hprojection, hnodup, fun name => ⟨fun hname => ?_, fun hname => ?_⟩⟩
  · obtain ⟨steps, hsteps, hsegments⟩ := hleaves name hname
    obtain ⟨p, hp, rfl⟩ := List.mem_map.mp hsteps
    rw [segments_inj hsegments]
    exact List.mem_map_of_mem hp
  · obtain ⟨p, hp, rfl⟩ := List.mem_map.mp hname
    obtain ⟨full, hfull, hsegments⟩ := Binding.exists_mem_of_leads hs hbindings
      (List.mem_map_of_mem hp) (hleads p hp)
    exact segments_inj hsegments ▸ hfull

/-- The projection of paths that are selected from the discovered ones copies them in their order. -/
theorem leafPaths_of_sublist (hs : s.Proper) {limit : Option Nat}
    (h : ps.Sublist (s.paths root limit)) :
    ∃ projection, ofPaths? s root ps = .ok projection ∧
      projection.leafPaths = ps.map (·.fullName) := by
  obtain ⟨bindings, hprojection, hbindings⟩ := exists_ofPaths? hs fun p hp =>
    Schema.paths_lead hs root p (h.subset hp)
  exact ⟨_, hprojection,
    Binding.allLeafPaths_of_sublist hs (List.Subset.refl _) (hs.distinct root) h hbindings⟩

end Projection

end EntityQuery
