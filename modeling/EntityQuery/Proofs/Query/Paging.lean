import EntityQuery.Proofs.Query.Reached
import Mathlib.Algebra.Order.Floor.Div

/-!
# Pages of an answer

Over stored entities, the pages of a query divide its answer: no record is lost and none comes
twice. Every page turns to all the others.

* `Page.ofList` — the pages of a list; `Page.load_slicing`, `Page.goTo_ofList`,
  `Page.flatMap_ofList`.
* `Query.AnswersFrom` — all answers of a query are parts of one list of records.
* `Query.DividedBy` — the pages of a size, and what they have to do with the whole answer.
* `Query.dividedBy_page` — the pages of a query in any of its states.
-/

namespace EntityQuery

/-! ### Pages of a list -/

namespace Page

variable {α : Type} {items : List α} {size page : Nat}

/-- Fetch parts of a list. -/
def slicing (items : List α) (size offset : Nat) : Except SourceError (List α) :=
  .ok ((Window.page offset size).apply items)

/-- A page of a list. -/
def ofList (items : List α) (size page : Nat) : Page α :=
  ⟨(Window.page (page * size) size).apply items, items.length, size, page, slicing items⟩

theorem pagesFor_eq_ceilDiv (totalItems pageSize : Nat) :
    pagesFor totalItems pageSize = totalItems ⌈/⌉ pageSize := rfl

/-- A page before the end begins before the end. -/
theorem lt_ceilDiv {total : Nat} (hsize : 0 < size) :
    page < total ⌈/⌉ size ↔ page * size < total := by
  rw [← not_le, ceilDiv_le_iff_le_mul hsize, not_le, Nat.mul_comm]

theorem load_slicing (hsize : 0 < size) :
    load (slicing items) items.length size page =
      if page < items.length ⌈/⌉ size ∨ page = 0 ∧ items.length = 0 then
        .ok (ofList items size page)
      else .error (.pageOutOfRange page (items.length ⌈/⌉ size)) := by
  have houtside : items.length ⌈/⌉ size ≤ page ∧ ¬(page = 0 ∧ items.length = 0) ↔
      ¬(page < items.length ⌈/⌉ size ∨ page = 0 ∧ items.length = 0) := by
    rw [not_or, not_lt]
  rw [load, if_neg (Nat.ne_of_gt hsize), pagesFor_eq_ceilDiv]
  by_cases hpage : page < items.length ⌈/⌉ size ∨ page = 0 ∧ items.length = 0
  · rw [if_pos hpage, if_neg (houtside.not.mpr (not_not_intro hpage))]
    by_cases hitems : items.length = 0
    · rw [if_pos hitems, ofList, List.length_eq_zero_iff.mp hitems]
      simp [Window.apply]
    · rw [if_neg hitems]
      rfl
  · rw [if_neg hpage, if_pos (houtside.mpr hpage)]

theorem goTo_ofList (hsize : 0 < size) (other : Nat) :
    (ofList items size page).goTo other =
      if other < items.length ⌈/⌉ size then .ok (ofList items size other)
      else .error (.pageOutOfRange other (items.length ⌈/⌉ size)) := by
  have htotal : (ofList items size page).totalPages = items.length ⌈/⌉ size := rfl
  rw [goTo, htotal]
  by_cases hother : other < items.length ⌈/⌉ size
  · rw [if_neg (Nat.not_le.mpr hother), if_pos hother]
    exact (load_slicing hsize).trans (if_pos (Or.inl hother))
  · rw [if_pos (Nat.not_lt.mp hother), if_neg hother]

/-- Pages one after the other are the beginning of the list. -/
theorem flatMap_ofList (items : List α) (size pages : Nat) :
    (List.range pages).flatMap (fun page => (ofList items size page).items) =
      items.take (pages * size) := by
  induction pages with
  | zero => simp
  | succ pages ih =>
    rw [List.range_succ, List.flatMap_append, ih, List.flatMap_singleton, Nat.succ_mul,
      List.take_add]
    rfl

/-- The pages of a list are the whole list. -/
theorem flatMap_ofList_ceilDiv (hsize : 0 < size) :
    (List.range (items.length ⌈/⌉ size)).flatMap (fun page => (ofList items size page).items) =
      items := by
  rw [flatMap_ofList]
  apply List.take_of_length_le
  rw [Nat.mul_comm]
  exact (ceilDiv_le_iff_le_mul hsize).mp (Nat.le_refl _)

theorem length_ofList (items : List α) (size page : Nat) :
    (ofList items size page).items.length = min size (items.length - page * size) := by
  rw [ofList, Window.apply, List.length_take, List.length_drop]

end Page

/-- Remembering the expressions of all conditions changes none of them. -/
theorem Represents.snapshot_compile {t : Tree} {o : Outline} (h : Represents t o)
    (hcoherent : o.root.Coherent) {c : Compiled Tree} (hc : t.compile t.root = .ok c) :
    c.result.snapshot c.result.root = t.snapshot t.root ∧
      ∃ o', Represents c.result o' ∧ o'.root.Coherent := by
  have hspec := h.compile_spec t.root
  have hupdate : o.root.update t.root (fun _ => o.root.compile.result) = o.root.compile.result := by
    rw [h.root]
    have hroot : o.root = Node.plug [] o.root := rfl
    exact h.update_eq hroot _
  simp only [Outline.compile, h.node_root, Except.map, hupdate] at hspec
  obtain ⟨a, ha, hrep⟩ := hspec
  obtain rfl := Except.ok.inj (hc.symm.trans ha)
  obtain ⟨-, hcoherent', hsame⟩ := Node.compile_spec hcoherent
  refine ⟨?_, _, hrep, hcoherent'⟩
  have hbefore := h.snapshot_eq t.root
  have hafter := hrep.snapshot_eq t.root
  rw [h.node_root] at hbefore
  rw [show Outline.node _ t.root = _ from hrep.node_root] at hafter
  exact hafter.trans ((congrArg Except.ok hsame).trans hbefore.symm)

namespace Query

variable {m : EntityModel} {start q q' : Query m} {records : List Record}

/-! ### Answers from a list of records -/

/-- All answers of a query are parts of a list of records. -/
structure AnswersFrom (q : Query m) (records : List Record) : Prop where
  execute (limit offset : Option Nat) :
    (q.execute limit offset).answer = .ok ((Window.bounded limit offset).apply records)
  page (size page : Nat) :
    (q.page size page).answer = Page.load (Page.slicing records) records.length size page

/-- Two queries with the same answers. -/
structure SameAnswers (q q' : Query m) : Prop where
  execute (limit offset : Option Nat) :
    (q.execute limit offset).answer = (q'.execute limit offset).answer
  page (size page : Nat) : (q.page size page).answer = (q'.page size page).answer

theorem AnswersFrom.same (h : q.AnswersFrom records) (h' : q'.AnswersFrom records) :
    q.SameAnswers q' where
  execute limit offset := (h.execute limit offset).trans (h'.execute limit offset).symm
  page size page := (h.page size page).trans (h'.page size page).symm

/-- A path that cannot be projected is refused. -/
theorem answer_execute_error {c : Compiled Tree} {cause : PathError}
    (hcompile : q.conditions.compile q.root = .ok c) (hprojection : q.projection? = .error cause)
    (limit offset : Option Nat) : (q.execute limit offset).answer = .error (.path cause) := by
  have hafter : ({ q with conditions := c.result } : Query m).projection? = .error cause :=
    hprojection
  rw [execute, compile, hcompile, Except.map]
  simp only [hafter]

/-- A page of a query is loaded with the filter and the projection of the query. -/
theorem answer_page {c : Compiled Tree} {p : Projection}
    (hcompile : q.conditions.compile q.root = .ok c) (hprojection : q.projection? = .ok p)
    {total : Nat} (hcount : q.source.count c.expr? = .ok total) (size page : Nat) :
    (q.page size page).answer =
      Page.load (fun size offset =>
        q.source.fetch ⟨c.expr?, some p, .page offset size, q.includes⟩) total size page := by
  have hunmapped (x : Except SourceError (List Record)) : x.map (List.map id) = x := by
    cases x with
    | error e => rfl
    | ok rs => exact congrArg Except.ok (List.map_id rs)
  have hqueried : q.compile = .ok ⟨c.expr?, { q with conditions := c.result }, c.built⟩ := by
    rw [compile, hcompile]
    rfl
  simp only [Query.page, paged, hprojection, hqueried, hcount, hunmapped]
  split
  · rename_i hsize
    rw [Page.load, if_pos hsize]
  · rfl

/-- Over stored entities, a query answers with the projected records of those that meet its
conditions. -/
theorem answersFrom {items : List Datum} (hsource : q.source = .memory m q.entity items)
    {o : Outline} (hrep : Represents q.conditions o) (hcoherent : o.root.Coherent) {s : Condition}
    (hs : q.conditions.snapshot q.root = .ok s) {p : Projection} (hp : q.projection? = .ok p) :
    q.AnswersFrom ((items.filter fun d => s.truth (m.toRecord q.entity d)).map fun d =>
      p.apply (m.toRecord q.entity d)) := by
  obtain ⟨s', c, hs', hc, -, hfilter⟩ := hrep.filter_root hcoherent
  cases hs.symm.trans hs'
  constructor
  · intro limit offset
    rw [answer_execute hc hp, hsource, fetch_memory items hfilter, Window.apply_map]
    rfl
  · intro size page
    have hcount : q.source.count c.expr? =
        .ok (items.filter fun d => s.truth (m.toRecord q.entity d)).length := by
      rw [hsource]
      show Except.ok (matching c.expr? _).length = _
      rw [matching_memory items hfilter, List.length_map]
    rw [answer_page hc hp hcount, List.length_map]
    congr 1
    funext size offset
    rw [hsource, fetch_memory items hfilter, Page.slicing, Window.apply_map]

/-- Asking a query does not change what it answers. -/
theorem Asked.answersFrom {items : List Datum} (hsource : q.source = .memory m q.entity items)
    {o : Outline} (hrep : Represents q.conditions o) (hcoherent : o.root.Coherent) {s : Condition}
    (hs : q.conditions.snapshot q.root = .ok s) {p : Projection} (hp : q.projection? = .ok p)
    (hasked : Asked q q') :
    q'.AnswersFrom ((items.filter fun d => s.truth (m.toRecord q.entity d)).map fun d =>
      p.apply (m.toRecord q.entity d)) := by
  rcases hasked with rfl | ⟨c, hcompile, rfl⟩
  · exact Query.answersFrom hsource hrep hcoherent hs hp
  · obtain ⟨hsame, o', hrep', hcoherent'⟩ := hrep.snapshot_compile hcoherent hcompile
    exact Query.answersFrom (q := { q with conditions := c.result }) hsource hrep' hcoherent'
      (hsame.trans hs) hp

/-! ### Pages of a query -/

/-- A page of a query, in its place among the pages of its size. It has the records of a window of
the whole answer: as many as its size if it is not the last, and at least one. It turns to exactly
the pages that the query loads, and knows whether there is a next one. -/
structure IsPage (q : Query m) (size : Nat) (records : List Record) (page : Nat)
    (p : Page Record) : Prop where
  current : p.current = page
  pageSize : p.pageSize = size
  totalItems : p.totalItems = records.length
  full : page + 1 < records.length ⌈/⌉ size → p.items.length = size
  last : page + 1 = records.length ⌈/⌉ size → 0 < p.items.length ∧ p.items.length ≤ size
  window : (q.execute (some ((page + 1) * size)) (some (page * size))).answer = .ok p.items
  goTo (other : Nat) : p.goTo other =
    if other < records.length ⌈/⌉ size then (q.page size other).answer
    else .error (.pageOutOfRange other (records.length ⌈/⌉ size))
  hasNext : p.hasNext ↔ ∃ next, p.goTo (p.current + 1) = .ok next
  next_fits : p.current + 1 < UInt64.size

/-- The pages of a size divide the answer of a query. Exactly those before the end are loaded, and
of no records the first one; their records, one page after the other, are the whole answer. The
position at which a page begins is a machine word. Asking does not change what is answered. -/
structure DividedBy (q : Query m) (size : Nat) (records : List Record) : Prop where
  execute : (q.execute none none).answer = .ok records
  loads (page : Nat) : (∃ p, (q.page size page).answer = .ok p) ↔
    page < records.length ⌈/⌉ size ∨ page = 0 ∧ records.length = 0
  refuses (page : Nat) (h : ¬(page < records.length ⌈/⌉ size ∨ page = 0 ∧ records.length = 0)) :
    (q.page size page).answer = .error (.pageOutOfRange page (records.length ⌈/⌉ size))
  joined : ∃ parts, (List.range (records.length ⌈/⌉ size)).mapM
      (fun page => (q.page size page).answer.map (·.items)) = .ok parts ∧
    parts.flatten = records
  isPage {page : Nat} {p : Page Record} (h : (q.page size page).answer = .ok p) :
    q.IsPage size records page p
  offset_fits {page : Nat} (h : page < records.length ⌈/⌉ size) : page * size < UInt64.size
  afterExecute (limit offset : Option Nat) : (q.execute limit offset).query.SameAnswers q
  afterPage (size page : Nat) : (q.page size page).query.SameAnswers q

theorem AnswersFrom.page_eq (h : q.AnswersFrom records) {size : Nat} (hsize : 0 < size)
    (page : Nat) : (q.page size page).answer =
      if page < records.length ⌈/⌉ size ∨ page = 0 ∧ records.length = 0 then
        .ok (Page.ofList records size page)
      else .error (.pageOutOfRange page (records.length ⌈/⌉ size)) :=
  (h.page size page).trans (Page.load_slicing hsize)

theorem AnswersFrom.isPage (h : q.AnswersFrom records) {size : Nat} (hsize : 0 < size)
    (hcount : records.length < UInt64.size) {page : Nat}
    (hpage : page < records.length ⌈/⌉ size ∨ page = 0 ∧ records.length = 0) :
    q.IsPage size records page (Page.ofList records size page) where
  current := rfl
  pageSize := rfl
  totalItems := rfl
  full hnext := by
    rw [Page.lt_ceilDiv hsize, Nat.succ_mul] at hnext
    rw [Page.length_ofList]
    omega
  last hlast := by
    have hbegin : page * size < records.length := (Page.lt_ceilDiv hsize).mp (by omega)
    rw [Page.length_ofList]
    omega
  window := by
    rw [h.execute, Nat.succ_mul, ← Window.apply_page]
    rfl
  goTo other := by
    rw [Page.goTo_ofList hsize]
    split
    · rename_i hother
      rw [h.page_eq hsize, if_pos (Or.inl hother)]
    · rfl
  hasNext := by
    have hnext : (Page.ofList records size page).hasNext ↔
        page + 1 < records.length ⌈/⌉ size := by
      rw [Page.hasNext, decide_eq_true_iff]
      rfl
    rw [hnext, Page.goTo_ofList hsize]
    show _ ↔ ∃ next, (if page + 1 < _ then _ else _) = _
    split <;> simp [*]
  next_fits := by
    show page + 1 < UInt64.size
    rcases hpage with hpage | ⟨rfl, -⟩
    · -- Every page before the end begins with a record of its own.
      have hbegin := (Page.lt_ceilDiv hsize).mp hpage
      have hpages : page ≤ page * size := Nat.le_mul_of_pos_right page hsize
      omega
    · decide

theorem AnswersFrom.dividedBy (h : q.AnswersFrom records) {size : Nat} (hsize : 0 < size)
    (hcount : records.length < UInt64.size)
    (hasked : ∀ {q'}, Asked q q' → q'.AnswersFrom records) : q.DividedBy size records where
  execute := h.execute none none
  loads page := by
    rw [h.page_eq hsize]
    split
    · rename_i hpage
      exact iff_of_true ⟨_, rfl⟩ hpage
    · rename_i hpage
      exact iff_of_false (fun ⟨_, hloaded⟩ => nomatch hloaded) hpage
  refuses page hpage := by rw [h.page_eq hsize, if_neg hpage]
  joined := by
    refine ⟨_, ?_, (List.flatMap_def ..).symm.trans (Page.flatMap_ofList_ceilDiv hsize)⟩
    nth_rewrite 1 [← List.map_id (List.range _)]
    refine mapM_map_eq_pure fun page hpage => ?_
    rw [id, h.page_eq hsize, if_pos (Or.inl (List.mem_range.mp hpage))]
    rfl
  isPage hpage := by
    rw [h.page_eq hsize] at hpage
    split at hpage
    · rename_i hinside
      cases hpage
      exact h.isPage hsize hcount hinside
    · cases hpage
  offset_fits hpage := ((Page.lt_ceilDiv hsize).mp hpage).trans hcount
  afterExecute limit offset := (hasked (asked_execute q limit offset)).same h
  afterPage size page := (hasked (asked_paged q _ _ size page _)).same h

/-- In every state of a planned query over stored entities, its pages of a size divide the answer,
which has one record for each stored entity of which the detached conditions are true. Selected
paths that cannot be projected are refused by the whole answer and by every page alike; in proper
schemas there are none. -/
theorem dividedBy_page {e : m.Ty} {items : List Datum} {plan : Plan}
    (hsource : plan.source? = some (.memory m e items)) (hstart : plan.build m e = .ok start)
    (hq : Reached start q) (hcount : items.length < UInt64.size) {size : Nat} (hsize : 0 < size) :
    ∃ s, q.conditions.snapshot q.root = .ok s ∧
      (m.schema.Proper → ∃ p, q.projection? = .ok p) ∧
      (∀ p, q.projection? = .ok p → q.DividedBy size
        ((items.filter fun d => s.truth (m.toRecord e d)).map fun d =>
          p.apply (m.toRecord e d))) ∧
      ∀ cause, q.projection? = .error cause →
        (∀ limit offset, (q.execute limit offset).answer = .error (.path cause)) ∧
          ∀ page, (q.page size page).answer = .error (.path cause) := by
  obtain ⟨hentity, hstored, htree⟩ := build_spec hstart
  obtain ⟨factory, hfollows⟩ := hq.follows htree
  obtain rfl : q.entity = e := hfollows.entity.trans hentity
  have hmemory : q.source = .memory m q.entity items := by
    rw [hfollows.source]
    exact Option.some.inj (hstored.symm.trans hsource)
  obtain ⟨o, hrep, hcoherent⟩ := hfollows.represents rfl
  obtain ⟨s, c, hs, hc, -, -⟩ := hrep.filter_root hcoherent
  refine ⟨s, hs, ?_, ?_, ?_⟩
  · intro hproper
    have hselects := selects_build hproper hstart
    obtain ⟨bindings, hprojection, -⟩ :=
      (hfollows.selects ⟨hselects.lead, hselects.distinct⟩).projection hproper
    exact ⟨_, hprojection⟩
  · intro p hp
    have hanswers {q' : Query m} (hasked : Asked q q') :=
      hasked.answersFrom hmemory hrep hcoherent hs hp
    refine (hanswers (Or.inl rfl)).dividedBy hsize ?_ hanswers
    rw [List.length_map]
    exact (List.length_filter_le ..).trans_lt hcount
  · intro cause hp
    refine ⟨answer_execute_error hc hp, fun page => ?_⟩
    rw [Query.page, hp]
    rfl

/-- Two people on pages of one, without their names. -/
theorem dividedBy_addressBook :
    let person : addressBook.Ty := (0 : Fin 2)
    let people : List Datum := [
      .entity [.text "Ann", .present (.entity [.text "Rome"])], .entity [.text "Bob", .absent]]
    let plan : Plan := { source? := some (.memory addressBook person people) }
    ∃ start, plan.build addressBook person = .ok start ∧ people.length < UInt64.size ∧
      let q := (start.change (.toggle "name")).change (.edit (.clear start.root))
      Reached start q ∧ ∃ records, records.length = 2 ∧ q.DividedBy 1 records := by
  intro person people plan
  have hsource : plan.source? = some (.memory addressBook person people) := rfl
  refine ⟨_, rfl, by decide, (Reached.start.change _).change _, ?_⟩
  obtain ⟨s, hs, hprojection, hdivided, -⟩ := dividedBy_page hsource rfl
    ((Reached.start.change (.toggle "name")).change (.edit (.clear _))) (by decide) Nat.one_pos
  obtain ⟨p, hp⟩ := hprojection (addressBook.schema_proper supported_addressBook)
  refine ⟨_, ?_, hdivided p hp⟩
  have hempty : s = .block .and [] := Except.ok.inj (hs.symm.trans rfl)
  rw [hempty]
  rfl

end Query

end EntityQuery
