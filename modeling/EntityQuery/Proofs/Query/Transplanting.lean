import EntityQuery.Proofs.Query.Answers
import EntityQuery.Proofs.Query.Reached
import EntityQuery.Proofs.Tree.Inverses
import EntityQuery.Proofs.Tree.Listening

/-!
# Taking over from another query

A query that takes over from another one of the same entity type is cleared below its root, and then
copies of the other query's conditions are added one after the other. After that both queries mean
the same, whatever conditions there were before, and taking over once more changes only names of
conditions.

* `Represents.clear_root`, `Represents.add_root` — a block at the root is cleared, and gets a child.
* `Represents.copyConditions_root` — the conditions below the root of another tree are copied.
* `Query.TakesOver` — what a query has after it took over from another one.
* `Query.transplant_reached` — queries of one entity type take over from each other.
-/

namespace EntityQuery

namespace Represents

variable {t other : Tree} {o p : Outline} {head : Head} {children : List Node}

/-! ### The root block -/

theorem seen_root (h : Represents t o) (hroot : o.root = .block head children) :
    t.root = head.id ∧ t.children t.root = .ok (children.map Node.id) ∧
      t.listeners t.root = head.listeners := by
  have hid : t.root = head.id := by rw [h.root, hroot, Node.id_block]
  have hplug : o.root = .plug [] (.block head children) := hroot
  refine ⟨hid, ?_, hid ▸ h.listeners_plug hplug⟩
  have hchildren := Outline.children_plug h.nodup hplug
  rw [hid, h.children_eq, hchildren]
  rfl

/-- The root block is cleared. -/
theorem clear_root (h : Represents t o) (hroot : o.root = .block head children) :
    ∃ u p, TreeM.clear head.id t = .ok () u ∧ Represents u p ∧ p.root = .block head.uncached [] ∧
      u.heard = t.heard ++ (⟨head.id, .cleared⟩ : Notice).events head.listeners := by
  have hplug : o.root = .plug [] (.block head children) := hroot
  have hsimulates := h.clear head.id
  rw [Outline.clear_plug h.nodup hplug] at hsimulates
  obtain ⟨u, hcall, hrep, hheard⟩ := hsimulates
  refine ⟨u, _, hcall, hrep, Node.touch_self (.block head []), ?_⟩
  have hlineage : (Node.block head []).lineage head.id = [head] :=
    Node.lineage_self (.block head [])
  rw [hheard, Outline.changed, Outline.root_place, Node.plug, hlineage, List.flatMap_singleton]

/-- The root block gets a child, whose listeners are yet to come. -/
theorem add_root (h : Represents t o) (hroot : o.root = .block head children) (c : Condition) :
    ∃ n u p, TreeM.add head.id c t = .ok n.id u ∧ Represents u p ∧
      p.root = .block head.uncached (children ++ [n]) ∧ n.toCondition = c ∧
      u.heard = t.heard ++ (⟨n.id, .added⟩ : Notice).events head.listeners := by
  have hplug : o.root = .plug [] (.block head children) := hroot
  obtain ⟨n, slots, hplant⟩ : ∃ n slots, Node.plant o.slots c = (n, slots) := ⟨_, _, rfl⟩
  have hsimulates := h.add head.id c
  rw [Outline.add_plug h.nodup hplug hplant] at hsimulates
  obtain ⟨u, hcall, hrep, hheard⟩ := hsimulates
  have hid : (n.withHead Head.uncached).id = n.id := by cases n <;> rfl
  have hc : n.toCondition = c := by
    have hself := Node.toCondition_plant o.slots c
    rwa [hplant] at hself
  have hlisteners : n.head.listeners = [] := by
    have hhead := Node.head_plant o.slots c
    rw [hplant] at hhead
    exact (hhead n (Node.mem_toList_self n)).2
  have hadded : Node.block head (children ++ [n]) = .plug [⟨head, children, []⟩] n := rfl
  have hnodup := hrep.nodup
  rw [Outline.changed, Outline.root_place, Node.plug, Node.ids_touch, hadded] at hnodup
  refine ⟨n.withHead Head.uncached, u, _, hid ▸ hcall, hrep, ?_, ?_, ?_⟩
  · rw [Outline.changed, Outline.root_place, Node.plug, hadded]
    exact Node.touch_plug_self hnodup
  · rw [Node.toCondition_withHead_uncached, hc]
  · rw [hheard, Outline.changed, Outline.root_place, Node.plug, hadded,
      Node.lineage_plug_self hnodup, hid]
    simp only [List.map_cons, List.map_nil, List.flatMap_cons, List.flatMap_nil, hlisteners,
      Notice.events, List.nil_append, List.append_nil]

/-- The root block gets children one after the other. -/
theorem forM_add_root (h : Represents t o) (hroot : o.root = .block head children)
    (hcache : head.uncached = head) (cs : List Condition) :
    ∃ ns u p, (cs.forM fun c => do let _ ← TreeM.add head.id c) t = .ok () u ∧ Represents u p ∧
      p.root = .block head (children ++ ns) ∧ ns.map Node.toCondition = cs ∧
      u.heard = t.heard ++
        ns.flatMap fun n => (⟨n.id, .added⟩ : Notice).events head.listeners := by
  induction cs generalizing t o children with
  | nil => exact ⟨[], t, o, rfl, h, by rw [hroot, List.append_nil], rfl, (List.append_nil _).symm⟩
  | cons c cs ih =>
    obtain ⟨n, u, p, hadd, hrep, hadded, hc, hheard⟩ := h.add_root hroot c
    rw [hcache] at hadded
    obtain ⟨ns, v, r, hothers, hrest, hall, hcs, hlater⟩ := ih hrep hadded
    refine ⟨n :: ns, v, r, ?_, hrest, by rw [hall, List.append_assoc, List.singleton_append],
      by rw [List.map_cons, hc, hcs], ?_⟩
    · have hstep : (do let _ ← TreeM.add head.id c : TreeM Unit) t = .ok () u := by
        rw [TreeM.bind_ok hadd]
        rfl
      show ((do let _ ← TreeM.add head.id c : TreeM Unit) >>= fun _ => cs.forM _) t = _
      rw [TreeM.bind_ok hstep]
      exact hothers
    · rw [hlater, hheard, List.flatMap_cons, List.append_assoc]

/-! ### Conditions of another tree -/

/-- The children of the root are copied as they are seen. -/
theorem snapshot_child (h : Represents t o) (hroot : o.root = .block head children) {n : Node}
    (hn : n ∈ children) : t.snapshot n.id = .ok n.toCondition := by
  obtain ⟨before, after, rfl⟩ := List.append_of_mem hn
  have hplug : o.root = .plug [⟨head, before, after⟩] n := hroot
  rw [h.snapshot_eq, Outline.node_plug h.nodup hplug]
  rfl

/-- Asking for conditions one by one before each is used, is using them. -/
theorem forM_snapshot (h : Represents t o) (hroot : o.root = .block head children)
    (use : Condition → TreeM Unit) {ns : List Node} (hns : ns ⊆ children) :
    ((ns.map Node.id).forM fun id => do
        let c ← TreeM.ask fun _ => t.snapshot id
        use c) = (ns.map Node.toCondition).forM use := by
  induction ns with
  | nil => rfl
  | cons n ns ih =>
    have hstep : (TreeM.ask fun _ => t.snapshot n.id) >>= use = use n.toCondition := by
      funext u
      exact TreeM.bind_ok (TreeM.ask_ok (h.snapshot_child hroot (hns List.mem_cons_self)))
    show ((TreeM.ask fun _ => t.snapshot n.id) >>= use) >>= (fun _ => (ns.map Node.id).forM _) =
      use n.toCondition >>= fun _ => (ns.map Node.toCondition).forM use
    rw [hstep, ih fun _ hm => hns (List.mem_cons_of_mem _ hm)]

/-- The conditions below the root are replaced by copies of those of another tree. -/
theorem copyConditions_root (h : Represents t o) (hroot : o.root = .block head children)
    (hother : Represents other p) {theirs : Head} {copied : List Node}
    (hcopied : p.root = .block theirs copied) :
    ∃ ns u q, Query.copyConditions other t = .ok () u ∧ Represents u q ∧
      q.root = .block head.uncached ns ∧ ns.map Node.toCondition = copied.map Node.toCondition ∧
      u.heard = t.heard ++ ((⟨head.id, .cleared⟩ : Notice).events head.listeners ++
        ns.flatMap fun n => (⟨n.id, .added⟩ : Notice).events head.listeners) := by
  obtain ⟨u, r, hclear, hrep, hcleared, hheard⟩ := h.clear_root hroot
  obtain ⟨ns, v, q, hadd, hadded, hall, hcs, hlater⟩ :=
    hrep.forM_add_root hcleared rfl (copied.map Node.toCondition)
  obtain ⟨hid, -, -⟩ := h.seen_root hroot
  obtain ⟨-, hchildren, -⟩ := hother.seen_root hcopied
  refine ⟨ns, v, q, ?_, hadded, hall, hcs, by rw [hlater, hheard, List.append_assoc]; rfl⟩
  rw [Query.copyConditions, TreeM.bind_ok TreeM.get_eq, hid, TreeM.bind_ok hclear,
    TreeM.bind_ok (TreeM.ask_ok hchildren), hother.forM_snapshot hcopied _ (List.Subset.refl _)]
  exact hadd

/-- What the root means depends on the conditions below it only. -/
theorem means_root (h : Represents t o) (hcoherent : o.root.Coherent)
    (hroot : o.root = .block head children) :
    let cs := children.map Node.toCondition
    t.snapshot t.root = .ok (.block head.logical cs) ∧
      (t.compile t.root).map (·.expr?) = .ok (Condition.exprs? none cs) ∧
      ∀ labels, t.describe t.root labels = .ok (Condition.texts labels "" cs) := by
  intro cs
  have hdetached : o.root.toCondition = .block head.logical cs := by
    rw [hroot, Node.toCondition, Node.allToCondition_eq_map]
  have hsnapshot : t.snapshot t.root = .ok (.block head.logical cs) := by
    rw [h.snapshot_eq, h.node_root, ← hdetached]
    rfl
  refine ⟨hsnapshot, ?_, fun labels => ?_⟩
  · rw [h.expr?_compile hcoherent, hsnapshot]
    rfl
  · rw [h.describe_eq, h.node_root]
    show Except.ok (o.root.toCondition.text labels) = _
    rw [hdetached, Condition.text]

end Represents

/-- What a listener of a condition hears of changes of which only this condition's listeners are
told. -/
theorem filter_notices {head : Head} (hnodup : head.listeners.Nodup) {listener : Nat}
    (h : listener ∈ head.listeners) (notices : List Notice) :
    (notices.flatMap (·.events head.listeners)).filter (·.listener == listener) =
      notices.map fun notice => { notice with listener } := by
  have hone (notice : Notice) : (notice.events head.listeners).filter (·.listener == listener) =
      [{ notice with listener }] := by
    have hall : [head].flatMap (·.listeners) = head.listeners := List.flatMap_singleton ..
    have hheads := filter_flatMap_events (hall ▸ hnodup) notice listener
    rwa [hall, if_pos h, List.flatMap_singleton] at hheads
  rw [List.filter_flatMap]
  simp only [hone]
  exact (List.map_eq_flatMap ..).symm

namespace Query

variable {m : EntityModel} {q other start : Query m}

/-! ### Flags -/

/-- The flag of a path: that of the first entry of its name. -/
def flag? (q : Query m) (name : String) : Option Bool :=
  (q.selectables.find? fun s => s.path.fullName == name).map (·.selected)

theorem forall₂_takeFlags (q other : Query m) :
    List.Forall₂ (fun s s' : Selectable => s'.path = s.path ∧
        s'.selected = (other.flag? s.path.fullName).getD s.selected)
      q.selectables (takeFlags q.selectables other.selectables) := by
  rw [takeFlags, List.forall₂_map_right_iff, List.forall₂_same]
  intro s _
  rw [flag?]
  show _ ∧ _
  have hfind : (other.selectables.find? fun t => t.path.same s.path) =
      other.selectables.find? fun t => t.path.fullName == s.path.fullName := rfl
  rw [hfind]
  cases other.selectables.find? fun t => t.path.fullName == s.path.fullName <;> exact ⟨rfl, rfl⟩

/-- Flags are taken over once. -/
theorem takeFlags_takeFlags (ours theirs : List Selectable) :
    takeFlags (takeFlags ours theirs) theirs = takeFlags ours theirs := by
  rw [takeFlags, takeFlags, List.map_map]
  refine List.map_congr_left fun s _ => ?_
  rw [Function.comp_apply]
  cases htheirs : theirs.find? fun t => t.path.same s.path with
  | none => simp only [htheirs]
  | some t => simp only [htheirs]

/-! ### Taking over -/

/-- What a query has after it took over from another one. The other one is only asked.

* `rest`: nothing but the selection and the conditions differs.
* `conditions`: the root keeps its logical operator and has the conditions below the root of the
  other query.
* `filter`, `words`: both queries have the same filter, and the same text under the same labels.
* `flags`: a path has the flag that it has in the other query, if it is there, and else its own.
* `listeners`: the root keeps its listeners.
* `told`, `heard`: they are told that the root was cleared and that every condition below it was
  added, one after the other, and nothing else is heard. -/
structure TakesOver (q other q' : Query m) (events : List Event) : Prop where
  rest : q' = { q with selectables := q'.selectables, conditions := q'.conditions }
  conditions : ∃ ours theirs, q.conditions.snapshot q.root = .ok ours ∧
    other.conditions.snapshot other.root = .ok theirs ∧
    q'.conditions.snapshot q'.root = .ok (.block ours.logical theirs.children)
  filter : ∃ filter, q'.compile.map (·.expr?) = .ok filter ∧
    other.compile.map (·.expr?) = .ok filter
  words (labels : Labels) : ∃ words, q'.conditions.describe q'.root labels = .ok words ∧
    other.conditions.describe other.root labels = .ok words
  flags : List.Forall₂ (fun s s' => s'.path = s.path ∧
      s'.selected = (other.flag? s.path.fullName).getD s.selected) q.selectables q'.selectables
  listeners : q'.root = q.root ∧
    q'.conditions.listeners q'.root = q.conditions.listeners q.root
  told : ∃ ids, q'.conditions.children q'.root = .ok ids ∧
    let notices : List Notice := ⟨q.root, .cleared⟩ :: ids.map fun id => ⟨id, .added⟩
    events = notices.flatMap (·.events (q.conditions.listeners q.root)) ∧
      ∀ listener ∈ q.conditions.listeners q.root,
        events.filter (·.listener == listener) =
          notices.map fun notice => { notice with listener }
  heard : q'.conditions.heard = q.conditions.heard ++ events

/-- The filter of a query is that of the root of its conditions. -/
theorem filter_compile (q : Query m) :
    q.compile.map (·.expr?) = (q.conditions.compile q.root).map (·.expr?) := by
  rw [compile]
  cases q.conditions.compile q.root <;> rfl

/-- The conditions of a query in one of its states are below a root block with different
listeners. -/
theorem Reached.exists_root {plan : Plan} {e : m.Ty} (hstart : plan.build m e = .ok start)
    (h : Reached start q) :
    ∃ o head children, Represents q.conditions o ∧ o.root.Coherent ∧
      o.root = .block head children ∧ head.listeners.Nodup := by
  obtain ⟨-, -, htree⟩ := build_spec hstart
  obtain ⟨factory, hfollows⟩ := h.follows htree
  obtain ⟨edits, hedits⟩ := hfollows.conditions
  have hrep := represents_run factory edits
  rw [← show q.conditions = (Tree.ofFactory factory).run edits from hedits] at hrep
  obtain ⟨head, children, hroot⟩ : ∃ head children,
      ((Outline.ofFactory factory).run edits).root = .block head children := by
    have hblock := hrep.isBlock
    cases hroot : ((Outline.ofFactory factory).run edits).root with
    | leaf head content =>
      rw [hroot] at hblock
      cases hblock
    | block head children => exact ⟨head, children, rfl⟩
  refine ⟨_, head, children, hrep, coherent_run factory edits, hroot, ?_⟩
  have hplug : ((Outline.ofFactory factory).run edits).root =
      .plug [] (.block head children) := hroot
  have hnodup := Node.nodup_listeners (hplug ▸ (distinct_run factory edits).1)
  simpa [Node.heads, Node.head] using hnodup

/-- If the conditions are copied, the query takes over. -/
theorem transplant_ok {u : Tree} {events : List Event}
    (hcopy : copyConditions other.conditions q.conditions = .ok () u)
    (hheard : u.heard = q.conditions.heard ++ events) :
    q.transplant other = .ok ({ q with
      selectables := takeFlags q.selectables other.selectables, conditions := u }, events) := by
  have hevents : u.heard.drop q.conditions.heard.length = events := by rw [hheard, List.drop_left]
  have houtcome : q.conditions.outcome (copyConditions other.conditions) = ⟨.ok (), u, events⟩ := by
    rw [Tree.outcome, hcopy, ← hevents]
  rw [transplant, houtcome]

/-- What remembered expressions of a state say is right. -/
theorem Reached.coherent {plan : Plan} {e : m.Ty} (hstart : plan.build m e = .ok start)
    (h : Reached start q) {o : Outline} (hrep : Represents q.conditions o) : o.root.Coherent := by
  obtain ⟨o', -, -, hrep', hcoherent, -, -⟩ := h.exists_root hstart
  have hsame : o.root = o'.root := hrep.outline_eq.symm.trans hrep'.outline_eq
  exact hsame ▸ hcoherent

/-- A query in one of its states takes over from every other one of its entity type. -/
theorem Reached.takesOver {start' : Query m} {plan plan' : Plan} {e : m.Ty}
    (hstart : plan.build m e = .ok start) (hstart' : plan'.build m e = .ok start')
    (hq : Reached start q) (hother : Reached start' other) :
    ∃ q' events, q.transplant other = .ok (q', events) ∧ TakesOver q other q' events := by
  obtain ⟨o, head, children, hrep, hcoherent, hroot, hnodup⟩ := hq.exists_root hstart
  obtain ⟨p, theirs, copied, hrep', hcoherent', hcopied, -⟩ := hother.exists_root hstart'
  obtain ⟨ns, u, r, hcopy, hafter, hadded, hcs, hheard⟩ :=
    hrep.copyConditions_root hroot hrep' hcopied
  have hok := transplant_ok hcopy hheard
  refine ⟨_, _, hok, ?_⟩
  -- what is remembered after taking over is right, since this is a state of the query again
  have hcoherentAfter : r.root.Coherent := (hq.transplant hok).coherent hstart hafter
  obtain ⟨hours, -, -⟩ := hrep.means_root hcoherent hroot
  obtain ⟨htheirs, htheirFilter, htheirWords⟩ := hrep'.means_root hcoherent' hcopied
  obtain ⟨hsnapshot, hfilter, hwords⟩ := hafter.means_root hcoherentAfter hadded
  rw [hcs] at hsnapshot hfilter hwords
  obtain ⟨hid, -, hlisteners⟩ := hrep.seen_root hroot
  obtain ⟨hidAfter, hchildren, hlistenersAfter⟩ := hafter.seen_root hadded
  have hevents : (⟨head.id, .cleared⟩ : Notice).events head.listeners ++
      (ns.flatMap fun n => (⟨n.id, .added⟩ : Notice).events head.listeners) =
      (⟨q.root, .cleared⟩ :: (ns.map Node.id).map fun id => (⟨id, .added⟩ : Notice)).flatMap
        (·.events head.listeners) := by
    rw [List.flatMap_cons, List.map_map, List.flatMap_map, root, hid]
    rfl
  exact {
    rest := rfl
    conditions := ⟨_, _, hours, htheirs, hsnapshot⟩
    filter := ⟨_, (filter_compile _).trans hfilter, (filter_compile other).trans htheirFilter⟩
    words := fun labels => ⟨_, hwords labels, htheirWords labels⟩
    flags := forall₂_takeFlags q other
    listeners := ⟨hidAfter.trans hid.symm, hlistenersAfter.trans hlisteners.symm⟩
    told := by
      refine ⟨_, hchildren, ?_⟩
      have hroots : q.conditions.listeners q.root = head.listeners := hlisteners
      rw [hroots]
      exact ⟨hevents, fun listener h => hevents ▸ filter_notices hnodup h _⟩
    heard := hheard }

theorem selectables_transplant {q' : Query m} {events : List Event}
    (h : q.transplant other = .ok (q', events)) :
    q'.selectables = takeFlags q.selectables other.selectables := by
  rw [transplant] at h
  split at h
  · cases h
  · cases h
    rfl

/-- Two queries that took over from the same one mean the same, except for the logical operators of
their roots. -/
theorem TakesOver.agree {q₁ q₂ q₁' q₂' : Query m} {events₁ events₂ : List Event}
    (h₁ : TakesOver q₁ other q₁' events₁) (h₂ : TakesOver q₂ other q₂' events₂) :
    q₂'.compile.map (·.expr?) = q₁'.compile.map (·.expr?) ∧
      ∀ labels, q₂'.conditions.describe q₂'.root labels =
        q₁'.conditions.describe q₁'.root labels := by
  obtain ⟨_, hfilter₁, hother₁⟩ := h₁.filter
  obtain ⟨_, hfilter₂, hother₂⟩ := h₂.filter
  refine ⟨?_, fun labels => ?_⟩
  · rw [hfilter₂, hfilter₁, ← hother₂, hother₁]
  · obtain ⟨_, hwords₁, hother₁⟩ := h₁.words labels
    obtain ⟨_, hwords₂, hother₂⟩ := h₂.words labels
    rw [hwords₂, hwords₁, ← hother₂, hother₁]

/-- Taking over once more leaves the conditions as they are. -/
theorem TakesOver.snapshot_again {q' q'' : Query m} {events events' : List Event}
    (h : TakesOver q other q' events) (hagain : TakesOver q' other q'' events') :
    q''.conditions.snapshot q''.root = q'.conditions.snapshot q'.root := by
  obtain ⟨_, theirs, -, htheirs, hfirst⟩ := h.conditions
  obtain ⟨ours, theirs', hours, htheirs', hsecond⟩ := hagain.conditions
  rw [hfirst] at hours
  rw [htheirs] at htheirs'
  cases hours
  cases htheirs'
  rw [hsecond, hfirst]
  rfl

/-- Queries of one entity type take over from each other, however they were planned and whatever
happened to them since. Taking over from the same query once more leaves the conditions, the filter,
the text and the flags as they are. -/
theorem transplant_reached {start' : Query m} {plan plan' : Plan} {e : m.Ty}
    (hstart : plan.build m e = .ok start) (hstart' : plan'.build m e = .ok start')
    (hq : Reached start q) (hother : Reached start' other) :
    ∃ q' events, q.transplant other = .ok (q', events) ∧ TakesOver q other q' events ∧
      ∃ q'' events', q'.transplant other = .ok (q'', events') ∧ TakesOver q' other q'' events' ∧
        q''.conditions.snapshot q''.root = q'.conditions.snapshot q'.root ∧
        q''.compile.map (·.expr?) = q'.compile.map (·.expr?) ∧
        (∀ labels, q''.conditions.describe q''.root labels =
          q'.conditions.describe q'.root labels) ∧
        q''.selectables = q'.selectables := by
  obtain ⟨q', events, hok, htakes⟩ := hq.takesOver hstart hstart' hother
  obtain ⟨q'', events', hagain, htakesAgain⟩ :=
    (hq.transplant hok).takesOver hstart hstart' hother
  obtain ⟨hfilter, hwords⟩ := htakes.agree htakesAgain
  have hflags : q''.selectables = q'.selectables := by
    rw [selectables_transplant hagain, selectables_transplant hok, takeFlags_takeFlags]
  exact ⟨q', events, hok, htakes, q'', events', hagain, htakesAgain,
    htakes.snapshot_again htakesAgain, hfilter, hwords, hflags⟩

/-- A query that offers names only, and has a condition and a listener, takes over from one that
offers cities too, does not select names, and has a factory without operators. -/
theorem transplant_reached_addressBook :
    let person : addressBook.Ty := (0 : Fin 2)
    let ann : Leaf := ⟨⟨"name", .text, false, "Person", 0⟩, .comparison .equal, .text "Ann"⟩
    let rome : Leaf :=
      ⟨⟨"address.city", .text, false, "Address", 1⟩, .comparison .equal, .text "Rome"⟩
    let source : Source := .memory addressBook person []
    let plan : Plan := { source? := some source, selectFilter := { excluded := ["address"] } }
    let plan' : Plan := { source? := some source, factory := { offer := fun _ => [] } }
    ∃ start start', plan.build addressBook person = .ok start ∧
      plan'.build addressBook person = .ok start' ∧
      let q := (start.change (.edit (.add ⟨0, 0⟩ (.leaf .and ann)))).change
        (.edit (.subscribe ⟨0, 0⟩))
      let other := (start'.change (.toggle "name")).change
        (.edit (.add ⟨0, 0⟩ (.leaf .or rome)))
      Reached start q ∧ Reached start' other ∧
        ∃ q' events, q.transplant other = .ok (q', events) ∧ TakesOver q other q' events ∧
          q'.conditions.snapshot q'.root = .ok (.block .and [.leaf .or rome]) := by
  intro person ann rome source plan plan'
  refine ⟨_, _, rfl, rfl, ?_⟩
  intro q other
  have hq : Reached _ q := (Reached.start.change _).change _
  have hother : Reached _ other := (Reached.start.change _).change _
  have hstart : plan.build addressBook person = .ok _ := rfl
  have hstart' : plan'.build addressBook person = .ok _ := rfl
  obtain ⟨q', events, hok, htakes, -⟩ := transplant_reached hstart hstart' hq hother
  refine ⟨hq, hother, q', events, hok, htakes, ?_⟩
  obtain ⟨ours, theirs, hours, htheirs, hafter⟩ := htakes.conditions
  have hsnapshot : q.conditions.snapshot q.root = .ok (.block .and [.leaf .and ann]) := rfl
  have htheirSnapshot : other.conditions.snapshot other.root =
      .ok (.block .and [.leaf .or rome]) := rfl
  cases hsnapshot.symm.trans hours
  cases htheirSnapshot.symm.trans htheirs
  exact hafter

end Query

end EntityQuery
