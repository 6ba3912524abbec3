import EntityQuery.Proofs.Tree.Represents

/-!
# The steps of an edit

An edit asks questions, changes the arena step by step, and then tells listeners. Each step is
described by the entries that the arena stores before it and after it.

* `TreeM.bind_ok`, `TreeM.bind_error` — a call after another one.
* `TreeM.modifyChildren_spec`, `TreeM.reparent_spec`, `TreeM.extract_spec`, `TreeM.alloc_spec`,
  `TreeM.insert_spec` — steps that change the arena.
* `Simulates` — a call on a tree answers as an edit of the outline does, and leaves a tree that
  represents the outline after it. A call that fails leaves the tree as it is.
* `Simulates.of_changed` — the end of an edit.
-/

namespace EntityQuery

namespace TreeM

variable {α β : Type} {t u : Tree}

theorem bind_ok {call : TreeM α} {next : α → TreeM β} {answer : α} (h : call t = .ok answer u) :
    (call >>= next) t = next answer u := by
  show EStateM.bind call next t = _
  rw [EStateM.bind, h]

theorem bind_error {call : TreeM α} {next : α → TreeM β} {e : ConditionError}
    (h : call t = .error e u) : (call >>= next) t = .error e u := by
  show EStateM.bind call next t = _
  rw [EStateM.bind, h]

theorem get_eq : (get : TreeM Tree) t = .ok t t := rfl

theorem ask_ok {question : Tree → Except ConditionError α} {answer : α}
    (h : question t = .ok answer) : ask question t = .ok answer t := by
  rw [ask, h]

theorem ask_error {question : Tree → Except ConditionError α} {e : ConditionError}
    (h : question t = .error e) : ask question t = .error e t := by
  rw [ask, h]

theorem modifyEntry_error {id : NodeId} {f : Entry → Entry} {e : ConditionError}
    (h : t.entry id = .error e) : modifyEntry id f t = .error e t := by
  rw [modifyEntry, bind_error (ask_error h)]

theorem modifyContent_error {id : NodeId} {f : Leaf → Leaf} {e : ConditionError}
    (h : t.content id = .error e) : modifyContent id f t = .error e t := by
  rw [modifyContent, bind_error (ask_error h)]

/-! ### Steps that change the arena -/

variable {parent? : Option NodeId} {es : Multiset (NodeId × Entry)}

theorem alloc_spec (h : t.arena.Stores es) (e : Entry) :
    ∃ a, onArena (·.alloc e) t = .ok t.arena.numbering.take.1 { t with arena := a } ∧
      a.numbering = t.arena.numbering.take.2 ∧
      a.Stores ((t.arena.numbering.take.1, e) ::ₘ es) := by
  have hnum := Prod.ext_iff.mp (Arena.numbering_alloc t.arena e)
  simp only at hnum
  refine ⟨(t.arena.alloc e).2, ?_, hnum.2, ?_⟩
  · rw [onArena, hnum.1]
  · rw [← hnum.1]
    exact h.alloc e

theorem insert_spec (parent? : Option NodeId) (h : t.arena.Stores es) (c : Condition) :
    ∃ a, onArena (·.insert parent? c) t =
        .ok (Node.plant t.arena.numbering c).1.id { t with arena := a } ∧
      a.numbering = (Node.plant t.arena.numbering c).2 ∧
      a.Stores ((Node.plant t.arena.numbering c).1.entries parent? + es) := by
  obtain ⟨a, ha, hnum, hes⟩ := Arena.insert_spec t.arena parent? es h c
  exact ⟨a, by rw [onArena, ha], hnum, hes⟩

/-- A leaf gets another content. -/
theorem modifyContent_spec {frames : List NodeFrame} {head : Head} {content : Leaf}
    (f : Leaf → Leaf)
    (h : t.arena.Stores ((Node.plug frames (.leaf head content)).entries none)) :
    ∃ a, modifyContent head.id f t = .ok () { t with arena := a } ∧
      a.numbering = t.arena.numbering ∧
      a.Stores ((Node.plug frames (.leaf head (f content))).entries none) := by
  have hcontent : t.content head.id = .ok content := by
    have hnode := h
    rw [Node.entries_plug] at hnode
    rw [Tree.content, Tree.entry, hnode.get?_eq]
    rfl
  let g (e : Entry) : Entry := { e with body := .leaf (f content) }
  refine ⟨t.arena.modify head.id g, ?_, Arena.numbering_modify .., ?_⟩
  · rw [modifyContent, bind_ok (ask_ok hcontent), onArena]
  · exact h.modify_plug (n := .leaf head (f content)) rfl rfl rfl

theorem children_of_stores {head : Head} {children : List Node}
    (h : t.arena.Stores ((head.id, (Node.block head children).entry parent?) ::ₘ es)) :
    t.children head.id = .ok (children.map Node.id) := by
  rw [Tree.children, Tree.entry, h.get?_eq]
  rfl

/-- The children of a block are named anew. -/
theorem modifyChildren_spec {head : Head} {children : List Node} {f : List NodeId → List NodeId}
    (others : List Node)
    (h : t.arena.Stores ((head.id, (Node.block head children).entry parent?) ::ₘ es))
    (hf : f (children.map Node.id) = others.map Node.id) :
    ∃ a, modifyChildren head.id f t = .ok () { t with arena := a } ∧
      a.numbering = t.arena.numbering ∧
      a.Stores ((head.id, (Node.block head others).entry parent?) ::ₘ es) := by
  let f (e : Entry) : Entry := { e with body := .block (others.map Node.id) }
  refine ⟨t.arena.modify head.id f, ?_, Arena.numbering_modify .., ?_⟩
  · rw [modifyChildren, bind_ok (ask_ok (children_of_stores h)), onArena, hf]
  · exact h.modify_children head children fun _ => rfl

/-- Nodes are put below another block. -/
theorem reparent_spec {ns : List Node} (parent : NodeId)
    (h : t.arena.Stores (Node.allEntries parent? ns + es)) :
    ∃ a, reparent (ns.map Node.id) parent t = .ok () { t with arena := a } ∧
      a.numbering = t.arena.numbering ∧
      a.Stores (Node.allEntries (some parent) ns + es) := by
  induction ns generalizing t es with
  | nil => exact ⟨t.arena, rfl, rfl, h⟩
  | cons n ns ih =>
    let f (e : Entry) : Entry := { e with parent? := some parent }
    rw [Node.allEntries, add_assoc] at h
    have hentry : t.entry n.id = .ok (n.entry parent?) := by
      rw [Tree.entry, h.includes.get?_eq]
    have hn : (t.arena.modify n.id f).Stores
        (Node.allEntries parent? ns + (n.entries (some parent) + es)) := by
      rw [Node.entries_eq_cons, Multiset.cons_add] at h
      rw [Node.entries_eq_cons, Multiset.cons_add, Multiset.add_cons, add_left_comm]
      exact h.modify f
    obtain ⟨a, ha, hnum, hes⟩ := ih (t := { t with arena := t.arena.modify n.id f }) hn
    refine ⟨a, ?_, hnum.trans (Arena.numbering_modify ..), ?_⟩
    · have hstep : modifyEntry n.id f t = .ok () { t with arena := t.arena.modify n.id f } := by
        rw [modifyEntry, bind_ok (ask_ok hentry), onArena]
      show (modifyEntry n.id f >>= fun _ => reparent (ns.map Node.id) parent) t = _
      rw [bind_ok hstep]
      exact ha
    · rwa [Node.allEntries, add_assoc, add_left_comm]

/-- A node is taken out with all below it. -/
theorem extract_spec {n : Node} (h : t.arena.Stores (n.entries parent? + es)) :
    ∃ a, extract n.id t = .ok (some n.toCondition) { t with arena := a } ∧
      a.numbering = t.arena.numbering.giveBackAll n.ids ∧ a.Stores es := by
  have hlevels : n.ids.length ≤ t.arena.slots.length := by
    have := h.card_le
    rw [Multiset.card_add, Node.card_entries] at this
    omega
  obtain ⟨a, ha, hnum, hes⟩ := Arena.extractAt_spec h
  refine ⟨a, ?_, hnum, hes⟩
  rw [extract, onArena, show t.arena.extractAt _ n.id = _ from ha t.arena.slots.length hlevels]

/-- Nodes are taken out one after the other. -/
theorem extract_forM_spec {ns : List Node} (h : t.arena.Stores (Node.allEntries parent? ns + es)) :
    ∃ a, ((ns.map Node.id).forM fun id => do let _ ← extract id) t = .ok () { t with arena := a } ∧
      a.numbering = t.arena.numbering.giveBackAll (ns.flatMap Node.ids) ∧ a.Stores es := by
  induction ns generalizing t with
  | nil => exact ⟨t.arena, rfl, rfl, by rwa [Node.allEntries, zero_add] at h⟩
  | cons n ns ih =>
    rw [Node.allEntries, add_assoc] at h
    obtain ⟨a, ha, hanum, haes⟩ := extract_spec h
    obtain ⟨b, hb, hbnum, hbes⟩ := ih (t := { t with arena := a }) haes
    refine ⟨b, ?_, ?_, hbes⟩
    · have hstep : (do let _ ← extract n.id : TreeM Unit) t = .ok () { t with arena := a } := by
        rw [bind_ok ha]
        rfl
      show ((do let _ ← extract n.id : TreeM Unit) >>= fun _ => (ns.map Node.id).forM _) t = _
      rw [bind_ok hstep]
      exact hb
    · rw [hbnum, hanum, List.flatMap_cons, Slots.giveBackAll, Slots.giveBackAll, Slots.giveBackAll,
        List.foldl_append]

end TreeM

/-! ### Whole edits -/

/-- A call on a tree answers as an edit of an outline does, and the events are heard after all that
was heard before. A call that fails leaves the tree as it is. -/
def Simulates {α : Type} (call : TreeM α) (t : Tree) :
    Except ConditionError (Outline.Outcome α) → Prop
  | .ok x => ∃ u, call t = .ok x.answer u ∧ Represents u x.outline ∧ u.heard = t.heard ++ x.events
  | .error e => call t = .error e t

namespace Simulates

variable {α β : Type} {call : TreeM α} {t u : Tree} {o : Outline}

theorem congr {other : TreeM α} {x : Except ConditionError (Outline.Outcome α)}
    (h : Simulates other t x) (hcall : call t = other t) : Simulates call t x := by
  cases x with
  | error e => exact hcall.trans h
  | ok x =>
    obtain ⟨u, hu, hrest⟩ := h
    exact ⟨u, hcall.trans hu, hrest⟩

/-- The answer is given in other words. -/
theorem map {x : Except ConditionError (Outline.Outcome α)} (h : Simulates call t x) (f : α → β) :
    Simulates (f <$> call) t (x.map (·.map f)) := by
  cases x with
  | error e =>
    show EStateM.map f call t = _
    rw [EStateM.map, show call t = _ from h]
  | ok x =>
    obtain ⟨u, hu, hrep, hheard⟩ := h
    refine ⟨u, ?_, hrep, hheard⟩
    show EStateM.map f call t = _
    rw [EStateM.map, hu]
    rfl

/-- The end of an edit: the walk upwards from a node. -/
theorem of_changed {answer : α} {start : NodeId} {notice : Notice} (h : Represents u o)
    (hstart : start ∈ o.root.ids) (hheard : u.heard = t.heard)
    (hcall : call t = (do TreeM.changed start notice; return answer : TreeM α) u) :
    Simulates call t (.ok (o.changed answer start notice)) := by
  obtain ⟨frames, n, hroot, rfl⟩ := Node.exists_plug hstart
  have hstores := h.stores
  have hnodup := h.nodup
  have hlevels := h.levels
  rw [hroot] at hstores hnodup hlevels
  obtain ⟨a, ha, hnum, hes⟩ := Arena.touchAt_spec notice hstores
  have ha := ha u.levels (Nat.lt_of_lt_of_le (Node.length_le_ids_plug frames n) hlevels)
  let heard := u.heard ++ (o.changed answer n.id notice).events
  have hchanged : TreeM.changed n.id notice u = .ok () { u with arena := a, heard } := by
    simp only [TreeM.changed, ha, heard, Outline.changed, hroot, Node.lineage_plug_self hnodup]
  refine ⟨{ u with arena := a, heard }, ?_, ?_, ?_⟩
  · rw [hcall, TreeM.bind_ok hchanged]
    rfl
  · have htouch : o.root.touch n.id =
        Node.plug (frames.map NodeFrame.uncached) (n.withHead Head.uncached) := by
      rw [hroot, Node.touch_plug_self hnodup]
    have hrep := h.withRoot (o.root.id_touch n.id) (o.root.isBlock_touch n.id) (htouch ▸ hes)
      (hnum.trans h.slots)
    exact ⟨hrep.stores, hrep.slots, hrep.root, hrep.isBlock, hrep.factory, hrep.nextListener⟩
  · simp only [heard, hheard]

end Simulates

end EntityQuery
