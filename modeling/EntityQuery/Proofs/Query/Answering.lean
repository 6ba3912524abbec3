import EntityQuery.Catalogue.Basic
import EntityQuery.Proofs.Query.Paging
import EntityQuery.Proofs.Query.Transplanting

/-!
# Queries over stored entities always answer

A new query comes from a plan or from a catalogue. Over stored entities of a type in a proper schema
it can be asked in every one of its states: its root compiles and is described, what is selected has
a projection, and the first page of every size is there, even if nothing is found.

* `Projection.ofPaths?_ok` — paths that lead to scalar members have a projection.
* `Page.load_map`, `Query.paged_map` — pages of items that are made from others.
* `Query.Built` — the ways to a new query, each of which goes through a plan.
* `Query.Reached.defaultPageSize` — no state has another page size.
* `Query.Answers` — what can be asked of a query; `Query.answers_built` for the states of new ones.
-/

namespace EntityQuery

/-- Paths that lead to scalar members have a projection. -/
theorem Projection.ofPaths?_ok {s : Schema} (hs : s.Proper) {root : s.Ty} {paths : List Path}
    (h : ∀ p ∈ paths, s.Leads root (segments p.fullName)) :
    ∃ projection, ofPaths? s root paths = .ok projection := by
  obtain ⟨bindings, hprojection, -⟩ := exists_ofPaths? hs h
  exact ⟨_, hprojection⟩

/-! ### Pages of other items -/

/-- A page of items that are made from fetched ones is made from the page of these. -/
theorem Page.load_map {α β : Type} (f : α → β)
    (fetch : Nat → Nat → Except SourceError (List α)) (totalItems pageSize page : Nat) :
    load (fun size offset => (fetch size offset).map (List.map f)) totalItems pageSize page =
      (load fetch totalItems pageSize page).map (Page.map f) := by
  simp only [load]
  split
  · rfl
  · split
    · rfl
    · split
      · rfl
      · cases fetch pageSize (page * pageSize) <;> rfl

namespace Query

variable {m : EntityModel} {start q q' : Query m}

theorem paged_map {α β : Type} (f : α → β) (q : Query m)
    (projection? : Except PathError Projection) (includes : Projection → List String)
    (size page : Nat) (ofRecord : Record → α) :
    q.paged projection? includes size page (f ∘ ofRecord) =
      (q.paged projection? includes size page ofRecord).map (Page.map f) := by
  have hitems (x : Except SourceError (List Record)) :
      x.map (List.map (f ∘ ofRecord)) = (x.map (List.map ofRecord)).map (List.map f) := by
    cases x with
    | error e => rfl
    | ok records => exact congrArg Except.ok (List.map_map ..).symm
  simp only [paged, hitems, Page.load_map]
  split
  · rfl
  · split
    · rfl
    · split
      · rfl
      · split <;> rfl

/-! ### New queries -/

/-- The ways to a new query: a plan, and a catalogue that is asked for an entity type or for a name.
Plans and catalogues may have been set up in any way. -/
inductive Built : Query m → Prop
  | plan {plan : Plan} {e : m.Ty} {q : Query m} (h : plan.build m e = .ok q) : Built q
  | catalogue {c : Catalogue m} {e : m.Ty} {q : Query m} (h : (c.build e).1 = .ok q) : Built q
  | named {c : Catalogue m} {name : String} {q : Query m} (h : (c.buildFor name).1 = .ok q) :
      Built q

theorem planned_of_build {c : Catalogue m} {e : m.Ty} (h : (c.build e).1 = .ok q) :
    ∃ (plan : Plan) (e : m.Ty), plan.build m e = .ok q := by
  rw [Catalogue.build] at h
  split at h
  · cases h
  · rename_i r _
    exact ⟨c.plan (r.provider r.calls), r.entity, h⟩

/-- Every new query is one of a plan. -/
theorem Built.planned (h : Built q) : ∃ (plan : Plan) (e : m.Ty), plan.build m e = .ok q := by
  cases h with
  | plan h => exact ⟨_, _, h⟩
  | catalogue h => exact planned_of_build h
  | named h =>
    rw [Catalogue.buildFor] at h
    split at h
    · cases h
    · exact planned_of_build h

/-- A page without items is refused when a query is built. -/
theorem defaultPageSize_build {plan : Plan} {e : m.Ty} (h : plan.build m e = .ok q) :
    0 < q.defaultPageSize := by
  rw [Plan.build] at h
  split at h
  · cases h
  · split at h
    · cases h
    · rename_i hsize
      cases h
      exact Nat.pos_of_ne_zero hsize

/-! ### The page size in all states -/

theorem Asked.defaultPageSize (h : Asked q q') : q'.defaultPageSize = q.defaultPageSize := by
  rcases h with rfl | ⟨c, -, rfl⟩ <;> rfl

theorem defaultPageSize_change (q : Query m) (c : QueryChange) :
    (q.change c).defaultPageSize = q.defaultPageSize := by
  cases c with
  | setSelected name b =>
    rw [change, setSelected]
    split <;> rfl
  | selectOnly names =>
    rw [change, selectOnly]
    split <;> rfl
  | _ => rfl

theorem defaultPageSize_transplant {other : Query m} {events : List Event}
    (h : q.transplant other = .ok (q', events)) : q'.defaultPageSize = q.defaultPageSize := by
  rw [transplant] at h
  split at h
  · cases h
  · cases h
    rfl

/-- No state has another page size. -/
theorem Reached.defaultPageSize (h : Reached start q) :
    q.defaultPageSize = start.defaultPageSize := by
  induction h with
  | start => rfl
  | change _ c ih => rw [defaultPageSize_change, ih]
  | replace _ factory edits ih => exact ih
  | transplant _ hcopy ih => rw [defaultPageSize_transplant hcopy, ih]
  | execute _ limit offset ih => rw [(asked_execute _ limit offset).defaultPageSize, ih]
  | executeAs _ view limit offset ih =>
    rw [(asked_executeAs _ view limit offset).defaultPageSize, ih]
  | page _ size page ih =>
    rw [Query.page, (asked_paged _ _ _ size page _).defaultPageSize, ih]
  | pageAs _ view size page ih =>
    rw [Query.pageAs, (asked_paged _ _ _ size page _).defaultPageSize, ih]

/-! ### Answers -/

/-- What can be asked of a query without failure. Not only the selected paths have a projection, but
all paths that can be selected together. -/
structure Answers (q : Query m) : Prop where
  compile : ∃ c, q.compile = .ok c
  projection : ∃ p, q.projection? = .ok p
  selectable : ∀ paths ⊆ q.selectables.map (·.path),
    ∃ p, Projection.ofPaths? m.schema q.entity paths = .ok p
  describe : ∃ words, q.describe = .ok words
  execute (limit offset : Option Nat) : ∃ records, (q.execute limit offset).answer = .ok records
  executeEntities (limit offset : Option Nat) :
    ∃ entities, (q.executeEntities limit offset).answer = .ok entities
  page {size : Nat} (hsize : 0 < size) : ∃ p, (q.page size 0).answer = .ok p
  pageEntities {size : Nat} (hsize : 0 < size) : ∃ p, (q.pageEntities size 0).answer = .ok p
  firstPage : ∃ p, q.firstPage.answer = .ok p
  pageSize : 0 < q.defaultPageSize

theorem AnswersFrom.firstPage {records : List Record} (h : q.AnswersFrom records) {size : Nat}
    (hsize : 0 < size) : ∃ p, (q.page size 0).answer = .ok p := by
  have hfirst : 0 < records.length ⌈/⌉ size ∨ 0 = 0 ∧ records.length = 0 := by
    rw [Page.lt_ceilDiv hsize]
    omega
  exact ⟨_, (h.page_eq hsize 0).trans (if_pos hfirst)⟩

/-- The pages of entities are made from those of records. -/
theorem exists_pageEntities {size page : Nat} (h : ∃ p, (q.page size page).answer = .ok p) :
    ∃ p, (q.pageEntities size page).answer = .ok p := by
  obtain ⟨p, hp⟩ := h
  have hmap : q.pageEntities size page = (q.page size page).map (Page.map (m.ofRecord q.entity)) :=
    paged_map (m.ofRecord q.entity) q _ _ size page id
  exact ⟨p.map (m.ofRecord q.entity), by rw [hmap, Run.map, hp]; rfl⟩

/-- However a query was built and whatever happened to it since, over stored entities it answers.
Its default page size is that of the query that was built, which is not zero. -/
theorem answers_built (hs : m.schema.Proper) (hstart : Built start) {items : List Datum}
    (hsource : start.source = .memory m start.entity items) (hq : Reached start q) :
    q.Answers ∧ q.defaultPageSize = start.defaultPageSize := by
  obtain ⟨plan, e, hplan⟩ := hstart.planned
  obtain ⟨-, -, htree⟩ := build_spec hplan
  obtain ⟨factory, hfollows⟩ := hq.follows htree
  obtain ⟨o, hrep, hcoherent⟩ := hfollows.represents rfl
  obtain ⟨s, c, hsnapshot, hcompile, -, -⟩ := hrep.filter_root hcoherent
  have hmemory : q.source = .memory m q.entity items := by
    rw [hfollows.source, hfollows.entity]
    exact hsource
  have hselects : Selects q :=
    hfollows.selects ⟨(selects_build hs hplan).lead, (selects_build hs hplan).distinct⟩
  obtain ⟨bindings, hprojection, -⟩ := hselects.projection hs
  have hanswers := answersFrom hmemory hrep hcoherent hsnapshot hprojection
  have hpositive : 0 < q.defaultPageSize := hq.defaultPageSize ▸ defaultPageSize_build hplan
  refine ⟨?_, hq.defaultPageSize⟩
  exact {
    compile := ⟨_, by rw [Query.compile, root, hcompile]; rfl⟩
    projection := ⟨_, hprojection⟩
    selectable := fun paths hpaths => Projection.ofPaths?_ok hs fun p hp => by
      obtain ⟨entry, hentry, rfl⟩ := List.mem_map.mp (hpaths hp)
      exact hselects.lead entry hentry
    describe := ⟨_, by rw [Query.describe, hrep.describe_eq, root, hrep.node_root]; rfl⟩
    execute := fun limit offset => ⟨_, hanswers.execute limit offset⟩
    executeEntities := fun limit offset =>
      ⟨_, by rw [Query.executeEntities, Run.map, hanswers.execute]; rfl⟩
    page := fun hsize => hanswers.firstPage hsize
    pageEntities := fun hsize => exists_pageEntities (hanswers.firstPage hsize)
    firstPage := exists_pageEntities (hanswers.firstPage hpositive)
    pageSize := hpositive }

/-- A catalogue with people and pages of two builds a query by name. Its conditions are on a city,
nothing is selected, and it takes over from itself. -/
theorem answers_built_addressBook :
    let person : addressBook.Ty := (0 : Fin 2)
    let people : List Datum := [
      .entity [.text "Ann", .present (.entity [.text "Rome"])], .entity [.text "Bob", .absent]]
    let catalogue : Catalogue addressBook :=
      (Catalogue.ofSettings { defaultPageSize := 2 }).register person fun _ =>
        .memory addressBook person people
    let rome : Leaf :=
      ⟨⟨"address.city", .text, false, "Address", 1⟩, .comparison .equal, .text "Rome"⟩
    addressBook.schema.Proper ∧
      ∃ start, (catalogue.buildFor "Person").1 = .ok start ∧
        start.source = .memory addressBook start.entity people ∧
        let q := (start.change (.edit (.add ⟨0, 0⟩ (.leaf .and rome)))).change (.selectOnly [])
        ∃ q' events, q.transplant q = .ok (q', events) ∧ Reached start q' ∧
          q'.Answers ∧ q'.defaultPageSize = 2 := by
  intro person people catalogue rome
  have hs : addressBook.schema.Proper := addressBook.schema_proper supported_addressBook
  refine ⟨hs, _, rfl, rfl, ?_⟩
  intro q
  have hq : Reached _ q := (Reached.start.change _).change _
  have hstart : (catalogue.buildFor "Person").1 = .ok _ := rfl
  obtain ⟨plan, e, hplan⟩ := (Built.named hstart).planned
  obtain ⟨q', events, hcopy, -⟩ := hq.takesOver hplan hplan hq
  have hreached := hq.transplant hcopy
  exact ⟨q', events, hcopy, hreached, answers_built hs (.named hstart) rfl hreached⟩

end Query

end EntityQuery
