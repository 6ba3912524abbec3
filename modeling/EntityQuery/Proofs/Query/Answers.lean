import EntityQuery.Proofs.Query.Sparse
import EntityQuery.Proofs.Tree.Meaning
import EntityQuery.Query.Change
import EntityQuery.Query.Plan

/-!
# Answers of queries

A query over stored entities answers with one entity for each stored one that meets the conditions,
in the order in which they are stored and between the given positions. It has the values of the
stored entity at the selected paths.

* `Represents.filter_root` — the root of a condition tree as a filter.
* `Query.Follows` — what changes of a query leave alone.
* `Query.execute_memory` — the records of the answer.
* `Query.Shows` — what an answered entity shows of a stored one.
* `Query.executeEntities_memory` — the entities of the answer.
* `Query.addressBook` — a small model of people and their addresses.
-/

namespace EntityQuery

/-- The root of a tree compiles to a filter for the records of which the detached root is true.
Without leaves these are all records. -/
theorem Represents.filter_root {t : Tree} {o : Outline} (h : Represents t o)
    (hcoherent : o.root.Coherent) :
    ∃ s c, t.snapshot t.root = .ok s ∧ t.compile t.root = .ok c ∧
      (s.hasLeaf = false → ∀ r, s.truth r) ∧ ∀ r, c.expr?.all (·.test r) = s.truth r := by
  have hsnapshot := h.snapshot_eq t.root
  have hexpr := h.expr?_compile hcoherent t.root
  rw [h.node_root] at hsnapshot
  rw [hsnapshot] at hexpr
  cases hc : t.compile t.root with
  | error e => rw [hc] at hexpr; cases hexpr
  | ok c =>
    rw [hc] at hexpr
    have hexpr : c.expr? = o.root.toCondition.expr? := Except.ok.inj hexpr
    refine ⟨_, c, hsnapshot, rfl, ?_⟩
    rw [hexpr]
    have hblock := h.isBlock
    cases hroot : o.root with
    | leaf head content => rw [hroot] at hblock; cases hblock
    | block head children =>
      exact ⟨fun h r => Condition.truth_of_no_leaf h r, fun r => Condition.all_test_expr? _ _ r⟩

namespace Query

variable {m : EntityModel}

/-! ### Changed queries -/

/-- A query that comes about by changes of another one: the conditions by edits, and the flags of
the same paths. -/
structure Follows (q start : Query m) : Prop where
  entity : q.entity = start.entity
  source : q.source = start.source
  paths : q.selectables.map (·.path) = start.selectables.map (·.path)
  conditions : ∃ edits, q.conditions = start.conditions.run edits

theorem follows_self (q : Query m) : Follows q q := ⟨rfl, rfl, rfl, [], rfl⟩

theorem map_path_selectFirst (name : String) (b : Bool) (entries : List Selectable) :
    (selectFirst name b entries).map (·.path) = entries.map (·.path) := by
  induction entries with
  | nil => rfl
  | cons entry entries ih =>
    rw [selectFirst]
    split
    · rfl
    · rw [List.map_cons, ih, List.map_cons]

variable {q start : Query m}

/-- Another selection of the same paths. -/
theorem Follows.withSelectables (h : Follows q start) {entries : List Selectable}
    (hentries : entries.map (·.path) = q.selectables.map (·.path)) :
    Follows { q with selectables := entries } start :=
  ⟨h.entity, h.source, hentries.trans h.paths, h.conditions⟩

theorem Follows.change (h : Follows q start) (c : QueryChange) : Follows (q.change c) start := by
  cases c with
  | edit e =>
    obtain ⟨edits, hedits⟩ := h.conditions
    refine ⟨h.entity, h.source, h.paths, edits ++ [e], ?_⟩
    rw [Tree.run_append, ← hedits]
    rfl
  | setSelected name b =>
    rw [Query.change, setSelected]
    split
    · exact h.withSelectables (map_path_selectFirst ..)
    · exact h
  | selectOnly names =>
    rw [Query.change, selectOnly]
    split
    · exact h
    · refine h.withSelectables ?_
      rw [List.map_map]
      rfl
  | toggle name =>
    refine h.withSelectables ?_
    rw [List.map_map]
    apply List.map_congr_left
    intro s _
    simp only [Function.comp_apply]
    split <;> rfl
  | setFlags flag =>
    refine h.withSelectables ?_
    rw [List.map_map]
    rfl

/-- Changes leave the entity type, the source and the paths alone, and edit the conditions. -/
theorem follows_changed (start : Query m) (changes : List QueryChange) :
    Follows (start.changed changes) start := by
  suffices h : ∀ q, Follows q start → Follows (q.changed changes) start from
    h start (follows_self start)
  induction changes with
  | nil => exact fun q h => h
  | cons c changes ih => exact fun q h => ih (q.change c) (h.change c)

/-! ### Records of the answer -/

/-- The answer is what the source has for the filter and the projection of the query. -/
theorem answer_execute {c : Compiled Tree} {p : Projection}
    (hcompile : q.conditions.compile q.root = .ok c) (hprojection : q.projection? = .ok p)
    (limit offset : Option Nat) :
    (q.execute limit offset).answer =
      (q.source.fetch ⟨c.expr?, some p, .bounded limit offset, q.includes⟩).mapError .source := by
  have hafter : ({ q with conditions := c.result } : Query m).projection? = .ok p := hprojection
  rw [execute, compile, hcompile, Except.map]
  simp only [hafter]
  rfl

/-- The records on which the filter of a condition holds are those of which it is true. -/
theorem matching_memory {e : m.Ty} (items : List Datum) {s : Condition} {filter : Option Expr}
    (hfilter : ∀ r, filter.all (·.test r) = s.truth r) :
    matching filter (items.map (m.toRecord e)) =
      (items.filter fun d => s.truth (m.toRecord e d)).map (m.toRecord e) := by
  rw [matching, List.filter_map]
  exact congrArg _ (List.filter_congr fun d _ => hfilter (m.toRecord e d))

/-- The source answers with the projected records of the stored entities that meet a condition, in
their order and in the window. -/
theorem fetch_memory {e : m.Ty} (items : List Datum) {s : Condition} {filter : Option Expr}
    (hfilter : ∀ r, filter.all (·.test r) = s.truth r) (p : Projection) (w : Window)
    (includes : List String) :
    (Source.memory m e items).fetch ⟨filter, some p, w, includes⟩ =
      .ok ((w.apply (items.filter fun d => s.truth (m.toRecord e d))).map fun d =>
        p.apply (m.toRecord e d)) := by
  simp only [Source.memory, Option.map_some, Option.getD_some]
  rw [matching_memory items hfilter, Window.apply_map, List.map_map]
  rfl

/-! ### Entities of the answer -/

/-- What an answered entity shows of a stored one: the values at the selected paths. At every other
path it is null or has the value of an untouched member. -/
def Shows (q : Query m) (stored answered : Datum) : Prop :=
  ∀ entry ∈ q.selectables,
    let found := (m.toRecord q.entity answered).getPath? entry.path.fullName
    if entry.selected then found = (m.toRecord q.entity stored).getPath? entry.path.fullName
    else found = some .null ∨ ∃ decl,
      m.declAt? q.entity (segments entry.path.fullName) = some decl ∧
        found = some (m.encode decl.type (m.untouched decl.type))

/-- The selected paths of a query lead to scalar members, and differ. -/
structure Selects (q : Query m) : Prop where
  lead : ∀ entry ∈ q.selectables, m.schema.Leads q.entity (segments entry.path.fullName)
  distinct : (q.selectables.map (·.path.fullName)).Nodup

theorem Follows.selects (h : Follows q start) (hstart : Selects start) : Selects q where
  lead entry hentry := by
    have hpath : entry.path ∈ start.selectables.map (·.path) :=
      h.paths ▸ List.mem_map_of_mem hentry
    obtain ⟨other, hother, hsame⟩ := List.mem_map.mp hpath
    rw [h.entity, ← hsame]
    exact hstart.lead other hother
  distinct := by
    have hnames := congrArg (List.map Path.fullName) h.paths
    rw [List.map_map, List.map_map] at hnames
    exact hnames ▸ hstart.distinct

/-- The paths of a planned query lead to scalar members, and differ. -/
theorem selects_build (hs : m.schema.Proper) {e : m.Ty} {plan : Plan}
    (h : plan.build m e = .ok start) : Selects start := by
  rw [Plan.build] at h
  split at h
  · cases h
  split at h
  · cases h
  cases h
  constructor
  · intro entry hentry
    obtain ⟨p, hp, rfl⟩ := List.mem_map.mp hentry
    exact Schema.paths_lead hs e p (List.mem_filter.mp hp).1
  · rw [List.map_map]
    have hsub := (List.filter_sublist (l := m.schema.paths e plan.selectFilter.maxDepth)
      (p := plan.selectFilter.allows)).map (·.fullName)
    exact (Schema.nodup_paths hs e).sublist hsub

/-- The names of the selected paths, by their segments. -/
def selectedSteps (q : Query m) : List (List String) := q.selected.map fun p => segments p.fullName

theorem Selects.mem_selectedSteps (h : Selects q) {entry : Selectable}
    (hentry : entry ∈ q.selectables) :
    segments entry.path.fullName ∈ q.selectedSteps ↔ entry.selected := by
  rw [selectedSteps, selected, List.map_map, List.mem_map]
  constructor
  · rintro ⟨other, hother, hsame⟩
    obtain ⟨hmem, hselected⟩ := List.mem_filter.mp hother
    have hname : other.path.fullName = entry.path.fullName := segments_inj hsame
    rw [← List.inj_on_of_nodup_map h.distinct hmem hentry hname]
    exact hselected
  · intro hselected
    exact ⟨entry, List.mem_filter.mpr ⟨hentry, hselected⟩, rfl⟩

theorem Selects.selectedSteps_lead (h : Selects q) :
    ∀ l ∈ q.selectedSteps, m.schema.Leads q.entity l := by
  intro l hl
  rw [selectedSteps, selected, List.map_map] at hl
  obtain ⟨entry, hentry, rfl⟩ := List.mem_map.mp hl
  exact h.lead entry (List.mem_filter.mp hentry).1

/-- The selected paths have a projection. -/
theorem Selects.projection (hs : m.schema.Proper) (h : Selects q) :
    ∃ bindings, q.projection? = .ok ⟨m.schema.nameOf q.entity, bindings⟩ ∧
      Binding.ofGroups m.schema q.entity "" (NameTree.ofSteps q.selectedSteps).children =
        .ok bindings := by
  refine Projection.exists_ofPaths? hs fun p hp => ?_
  obtain ⟨entry, hentry, rfl⟩ := List.mem_map.mp hp
  exact h.lead entry (List.mem_filter.mp hentry).1

/-- What is read from the projected record of a stored entity shows it. -/
theorem Selects.shows (hm : m.Supported) (h : Selects q) {bindings : List Binding}
    (hbindings : Binding.ofGroups m.schema q.entity ""
      (NameTree.ofSteps q.selectedSteps).children = .ok bindings)
    {d : Datum} (hd : m.Typed (.entity q.entity) d) :
    q.Shows d (m.ofRecord q.entity
      ((⟨m.schema.nameOf q.entity, bindings⟩ : Projection).apply (m.toRecord q.entity d))) := by
  intro entry hentry
  obtain ⟨members, rfl⟩ : ∃ members, d = .entity members := by
    cases hd
    exact ⟨_, rfl⟩
  have hleads := h.lead entry hentry
  obtain ⟨hselected, hother⟩ := m.at?_sparse hm hleads h.selectedSteps_lead hbindings hd
  rw [h.mem_selectedSteps hentry] at hselected hother
  simp only [Record.getPath?_eq_at?]
  split
  · rename_i hflag
    exact hselected hflag
  · rename_i hflag
    obtain ⟨decl, hdecl⟩ := EntityModel.exists_declAt? hleads
    refine (hother hflag).imp_right fun hdefault => ⟨decl, hdecl, ?_⟩
    rw [EntityModel.defaultAt?, hdecl] at hdefault
    exact hdefault

/-- A query over stored entities whose conditions come about by edits answers with what it shows of
the stored entities that meet them. -/
theorem Selects.answer (hm : m.Supported) (h : Selects q) {items : List Datum}
    (hitems : ∀ d ∈ items, m.Typed (.entity q.entity) d)
    (hsource : q.source = .memory m q.entity items) {o : Outline}
    (hrep : Represents q.conditions o) (hcoherent : o.root.Coherent) (limit offset : Option Nat) :
    ∃ s answered, q.conditions.snapshot q.root = .ok s ∧
      (s.hasLeaf = false → ∀ r, s.truth r) ∧
      (q.executeEntities limit offset).answer = .ok answered ∧
      List.Forall₂ q.Shows
        (Window.between (offset.getD 0) limit
          (items.filter fun d => s.truth (m.toRecord q.entity d))) answered := by
  obtain ⟨s, c, hs, hc, hempty, hfilter⟩ := hrep.filter_root hcoherent
  obtain ⟨bindings, hprojection, hbindings⟩ := h.projection (m.schema_proper hm)
  let p : Projection := ⟨m.schema.nameOf q.entity, bindings⟩
  let found := Window.between (offset.getD 0) limit
    (items.filter fun d => s.truth (m.toRecord q.entity d))
  refine ⟨s, found.map fun d => m.ofRecord q.entity (p.apply (m.toRecord q.entity d)), hs, hempty,
    ?_, ?_⟩
  · show Except.map _ (q.execute limit offset).answer = _
    rw [answer_execute hc hprojection, hsource, fetch_memory items hfilter, Window.apply_bounded]
    simp only [Except.mapError, Except.map, List.map_map]
    rfl
  · rw [List.forall₂_map_right_iff, List.forall₂_same]
    intro d hd
    have hmem := (Window.between_sublist ..).subset hd
    exact h.shows hm hbindings (hitems d (List.mem_filter.mp hmem).1)

theorem build_spec {e : m.Ty} {plan : Plan} (h : plan.build m e = .ok start) :
    start.entity = e ∧ plan.source? = some start.source ∧
      start.conditions = .ofFactory plan.operatorFactory := by
  rw [Plan.build] at h
  split at h
  · cases h
  · rename_i source hsource
    split at h
    · cases h
    · cases h
      exact ⟨rfl, hsource, rfl⟩

/-- Edited conditions represent an outline in which all that is remembered is right. -/
theorem Follows.represents (h : Follows q start) {factory : OperatorFactory}
    (hstart : start.conditions = .ofFactory factory) :
    ∃ o, Represents q.conditions o ∧ o.root.Coherent := by
  obtain ⟨edits, hedits⟩ := h.conditions
  rw [hedits, hstart]
  exact ⟨_, represents_run factory edits, coherent_run factory edits⟩

/-- Over stored entities, a query that comes about by changes of a planned one answers with one
entity for each stored one of which the detached conditions are true; without leaves these are all.
They come in their order, from the position `offset` up to but excluding `limit`, and show what is
selected. -/
theorem executeEntities_memory (hm : m.Supported) {e : m.Ty} {items : List Datum}
    (hitems : ∀ d ∈ items, m.Typed (.entity e) d) {plan : Plan}
    (hsource : plan.source? = some (.memory m e items)) (hstart : plan.build m e = .ok start)
    (changes : List QueryChange) (limit offset : Option Nat) :
    let q := start.changed changes
    ∃ s answered, q.conditions.snapshot q.root = .ok s ∧
      (s.hasLeaf = false → ∀ r, s.truth r) ∧
      (q.executeEntities limit offset).answer = .ok answered ∧
      List.Forall₂ q.Shows
        (Window.between (offset.getD 0) limit (items.filter fun d => s.truth (m.toRecord e d)))
        answered := by
  intro q
  have hfollows : Follows q start := follows_changed start changes
  obtain ⟨hentity, hstored, htree⟩ := build_spec hstart
  have hq : q.entity = e := hfollows.entity.trans hentity
  have hmemory : q.source = .memory m q.entity items := by
    rw [hq, hfollows.source]
    exact Option.some.inj (hstored.symm.trans hsource)
  obtain ⟨o, hrep, hcoherent⟩ := hfollows.represents htree
  have hselects : Selects q := hfollows.selects (selects_build (m.schema_proper hm) hstart)
  have hanswer := hselects.answer hm (hq ▸ hitems) hmemory hrep hcoherent limit offset
  rw [hq] at hanswer
  exact hanswer

/-- People with a name, and perhaps an address with a city. -/
def addressBook : EntityModel where
  size := 2
  entities := #v[
    ⟨"Person", "Person",
      [{ name := "name", type := .scalar (.ofKind .text) },
        { name := "address", type := .option (.entity 1) }]⟩,
    ⟨"Address", "Address", [{ name := "city", type := .scalar (.ofKind .text) }]⟩]

theorem supported_addressBook : addressBook.Supported := by
  constructor <;> decide

theorem typed_addressBook {person : addressBook.Ty} (h : person = (0 : Fin 2)) (name : String)
    {address : Datum} (haddress : addressBook.Typed (.option (.entity (1 : Fin 2))) address) :
    addressBook.Typed (.entity person) (.entity [.text name, address]) := by
  subst h
  exact .entity rfl (List.forall_mem_cons.mpr ⟨.scalar trivial,
    List.forall_mem_cons.mpr ⟨haddress, List.forall_mem_nil _⟩⟩)

/-- People have two paths. -/
theorem paths_addressBook {person : addressBook.Ty} (h : person = (0 : Fin 2)) :
    addressBook.schema.paths person none =
      [⟨"name", .text, false, "Person", 0⟩, ⟨"address.city", .text, false, "Address", 1⟩] := by
  obtain ⟨address, ha⟩ : ∃ t : addressBook.schema.Ty, t = (1 : Fin 2) := ⟨_, rfl⟩
  have hperson : addressBook.schema.decl person = ⟨"Person", "Person",
      [⟨"name", .scalar .text false⟩, ⟨"address", .object address true⟩]⟩ := by
    rw [EntityModel.decl_schema, h, ha]
    rfl
  have haddress : addressBook.schema.decl address =
      ⟨"Address", "Address", [⟨"city", .scalar .text false⟩]⟩ := by
    rw [EntityModel.decl_schema, ha]
    rfl
  have henters : addressBook.schema.enters none ["Person"] 1 address := by
    rw [Schema.enters, Schema.identityOf, haddress]
    rfl
  rw [Schema.paths, Schema.identityOf, Schema.nameOf, hperson, Schema.discover, Schema.discover,
    if_pos henters, Schema.nameOf, haddress, Schema.discover, Schema.discover, Schema.discover]
  rfl

theorem offered_addressBook {person : addressBook.Ty} (h : person = (0 : Fin 2)) :
    Plan.offered addressBook person {} =
      [⟨"name", .text, false, "Person", 0⟩, ⟨"address.city", .text, false, "Address", 1⟩] := by
  show (addressBook.schema.paths person none).filter _ = _
  rw [paths_addressBook h]
  rfl

/-- A person as a record. -/
theorem toRecord_addressBook {person : addressBook.Ty} (h : person = (0 : Fin 2)) (name : String)
    (address : Datum) :
    addressBook.toRecord person (.entity [.text name, address]) =
      [("name", .text name),
        ("address", addressBook.encode (.option (.entity (1 : Fin 2))) address)] := by
  have hmembers : (addressBook.decl person).members =
      [{ name := "name", type := .scalar (.ofKind .text) },
        { name := "address", type := .option (.entity (1 : Fin 2)) }] := by
    rw [h]
    rfl
  rw [EntityModel.toRecord, hmembers, EntityModel.encodeMembers, if_neg Bool.false_ne_true,
    EntityModel.encodeMembers, if_neg Bool.false_ne_true, EntityModel.encodeMembers,
    EntityModel.encode]
  · rfl
  · exact fun _ _ _ _ h => absurd h.symm (List.cons_ne_nil _ _)

/-- Of three people, two are asked for by their names, and the answer starts with the second of them.
Names are not selected. -/
theorem executeEntities_addressBook :
    let person : addressBook.Ty := (0 : Fin 2)
    let ann : Datum := .entity [.text "Ann", .present (.entity [.text "Rome"])]
    let bob : Datum := .entity [.text "Bob", .absent]
    let cid : Datum := .entity [.text "Cid", .present (.entity [.text "Oslo"])]
    let people : List Datum := [ann, bob, cid]
    let plan : Plan := { source? := some (.memory addressBook person people) }
    let named : Condition := .leaf .and ⟨⟨"name", .text, false, "Person", 0⟩,
      .membership false, .list [.text "Ann", .text "Cid"]⟩
    addressBook.Supported ∧ (∀ d ∈ people, addressBook.Typed (.entity person) d) ∧
      ∃ start, plan.build addressBook person = .ok start ∧
        let q := start.changed [.toggle "name", .edit (.add ⟨0, 0⟩ named)]
        q.selectables.map (fun entry => (entry.path.fullName, entry.selected)) =
            [("name", false), ("address.city", true)] ∧
          ∃ s answered, q.conditions.snapshot q.root = .ok s ∧ s.hasLeaf ∧
            people.filter (fun d => s.truth (addressBook.toRecord person d)) = [ann, cid] ∧
            (q.executeEntities (some 2) (some 1)).answer = .ok answered ∧
            List.Forall₂ q.Shows [cid] answered := by
  intro person ann bob cid people plan named
  have hcity (city : String) :
      addressBook.Typed (.option (.entity (1 : Fin 2))) (.present (.entity [.text city])) :=
    .present (.entity rfl (List.forall_mem_cons.mpr ⟨.scalar trivial, List.forall_mem_nil _⟩))
  have hpeople : ∀ d ∈ people, addressBook.Typed (.entity person) d :=
    List.forall_mem_cons.mpr ⟨typed_addressBook rfl "Ann" (hcity "Rome"),
      List.forall_mem_cons.mpr ⟨typed_addressBook rfl "Bob" .absent,
        List.forall_mem_cons.mpr ⟨typed_addressBook rfl "Cid" (hcity "Oslo"),
          List.forall_mem_nil _⟩⟩⟩
  have hsource : plan.source? = some (.memory addressBook person people) := rfl
  let asked : Condition := .block .and [named]
  have hann : asked.truth (addressBook.toRecord person ann) = true := by
    rw [show addressBook.toRecord person ann = _ from toRecord_addressBook rfl "Ann" _]
    rfl
  have hnobody : asked.truth (addressBook.toRecord person bob) = false := by
    rw [show addressBook.toRecord person bob = _ from toRecord_addressBook rfl "Bob" _]
    rfl
  have hcid : asked.truth (addressBook.toRecord person cid) = true := by
    rw [show addressBook.toRecord person cid = _ from toRecord_addressBook rfl "Cid" _]
    rfl
  have hfilter : people.filter (fun d => asked.truth (addressBook.toRecord person d)) =
      [ann, cid] := by
    simp only [people, List.filter, hann, hnobody, hcid]
  refine ⟨supported_addressBook, hpeople, _, rfl, ?_⟩
  intro q
  have hselectables : q.selectables.map (fun entry => (entry.path.fullName, entry.selected)) =
      [("name", false), ("address.city", true)] := by
    show (((Plan.offered addressBook person {}).map _).map _).map _ = _
    rw [offered_addressBook rfl]
    rfl
  have hconditions : q.conditions = (Tree.ofFactory .standard).run [.add ⟨0, 0⟩ named] := rfl
  have hsnapshot : q.conditions.snapshot q.root = .ok asked := by
    rw [Query.root, hconditions]
    rfl
  obtain ⟨s, answered, hs, -, hanswer, hshows⟩ :=
    executeEntities_memory supported_addressBook hpeople hsource rfl
      [.toggle "name", .edit (.add ⟨0, 0⟩ named)] (some 2) (some 1)
  cases hsnapshot.symm.trans hs
  rw [hfilter] at hshows
  exact ⟨hselectables, asked, answered, hs, rfl, hfilter, hanswer, hshows⟩

end Query

end EntityQuery
