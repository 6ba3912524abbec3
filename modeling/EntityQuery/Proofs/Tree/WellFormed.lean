import EntityQuery.Proofs.Tree.Refinement
import Mathlib.Logic.Relation

/-!
# Every tree is a tree

The parent links, the child lists, the slots and the list of empty slots of every tree that comes
about by edits fit together.

* `Tree.IsChild`, `Tree.ancestor?` — one step downwards, and steps upwards.
* `Tree.WellFormed` — how links, lists and slots fit together.
* `Represents.wellFormed` — a tree that represents an outline is well-formed.
* `Tree.wellFormed_run` — so is every tree that comes about by edits.
-/

namespace EntityQuery

namespace Tree

/-- A name is in the list of a block's children. -/
def IsChild (t : Tree) (child block : NodeId) : Prop :=
  ∃ e, t.arena.get? block = some e ∧ child ∈ e.children

/-- The name some steps above a condition. -/
def ancestor? (t : Tree) : Nat → NodeId → Option NodeId
  | 0, id => some id
  | steps + 1, id => (t.arena.get? id).bind fun e => e.parent?.bind (t.ancestor? steps)

/-- The links, lists and slots of a tree fit together. -/
structure WellFormed (t : Tree) : Prop where
  /-- The root is a block without a parent. -/
  root_block : ∃ e, t.arena.get? t.root = some e ∧ e.isBlock ∧ e.parent? = none
  /-- Every other condition is once a child of its parent, which is a block, and of no other one. -/
  parent_block : ∀ id e, t.arena.get? id = some e → id ≠ t.root →
    ∃ block b, e.parent? = some block ∧ t.arena.get? block = some b ∧ b.isBlock ∧
      b.children.count id = 1 ∧ ∀ other, t.IsChild id other → other = block
  /-- Every child has its block as parent. -/
  child_parent : ∀ id block, t.IsChild id block →
    ∃ e, t.arena.get? id = some e ∧ e.parent? = some block
  /-- The parents of a condition lead to the root. -/
  root_above : ∀ id, t.contains id → ∃ steps, t.ancestor? steps id = some t.root
  /-- The children of the root and their children lead to every condition. -/
  below_root : ∀ id, t.contains id → Relation.ReflTransGen t.IsChild id t.root
  /-- No walk through children goes on forever. -/
  wellFounded : WellFounded t.IsChild
  /-- More levels change no walk. -/
  walks : ∀ id, t.contains id → ∀ levels, t.levels ≤ levels →
    (∃ c, t.snapshot id = .ok c ∧ Arena.snapshotAt levels t.arena id = .ok c) ∧
    Arena.firstLeafAt? levels t.arena id = t.firstLeaf? id ∧
    (∀ labels, Arena.describeAt labels levels t.arena id = t.describe id labels) ∧
    Arena.compileAt levels t.arena id = Arena.compileAt t.levels t.arena id ∧
    Arena.extractAt levels t.arena id = Arena.extractAt t.levels t.arena id ∧
    ∀ notice, Arena.touchAt notice levels t.arena (some id) =
      Arena.touchAt notice t.levels t.arena (some id)
  /-- The list of empty slots has each of them once, and nothing else. -/
  tidy : t.arena.Tidy
  /-- There is an entry for the root, and the other entries are counted. -/
  size_eq : ∃ c, t.snapshot t.root = .ok c ∧ c.nodeCount = t.size + 1 ∧
    t.arena.free.length + 1 + t.size = t.arena.slots.length

end Tree

namespace Node

/-- A node is counted with the nodes below it. -/
theorem nodeCount_toCondition (n : Node) : n.toCondition.nodeCount = n.ids.length := by
  induction n using nested with
  | leaf head content => simp [toCondition, Condition.nodeCount]
  | block head children ih =>
    have below : Condition.nodeCounts (children.map toCondition) =
        (children.flatMap ids).length := by
      induction children with
      | nil => rfl
      | cons c cs ihs =>
        rw [List.map_cons, Condition.nodeCounts, ih c List.mem_cons_self,
          ihs fun c hc => ih c (List.mem_cons_of_mem _ hc), List.flatMap_cons, List.length_append]
    rw [toCondition, allToCondition_eq_map, Condition.nodeCount, below, ids_block, List.length_cons,
      Nat.add_comm]

/-- The children of a block have different names. -/
theorem nodup_children {frames : List NodeFrame} {head : Head} {children : List Node}
    (h : (plug frames (block head children)).ids.Nodup) : (children.map id).Nodup := by
  have hsub : ∀ ns : List Node, (ns.map id).Sublist (ns.flatMap ids) := by
    intro ns
    induction ns with
    | nil => exact List.Sublist.refl _
    | cons n ns ih =>
      rw [List.map_cons, List.flatMap_cons, ← List.singleton_append]
      exact (List.singleton_sublist.mpr n.id_mem_ids).append ih
  have hids := ((ids_plug_perm frames _).nodup_iff.mp h).of_append_right
  rw [ids_block, List.nodup_cons] at hids
  exact hids.2.sublist (hsub children)

end Node

namespace Represents

variable {t : Tree} {o : Outline}

/-- A live name is that of a node in its surroundings. -/
theorem locate_live (h : Represents t o) {id : NodeId} {e : Entry}
    (he : t.arena.get? id = some e) :
    ∃ frames n, o.root = Node.plug frames n ∧ n.id = id ∧ e = n.entry (Node.above frames) := by
  cases hn : o.root.find? id with
  | none =>
    rw [h.get?_eq_none hn] at he
    cases he
  | some n =>
    obtain ⟨frames, hroot, rfl⟩ := Node.exists_plug_of_find? h.nodup hn
    rw [(h.includes hroot).get?_eq] at he
    cases he
    exact ⟨frames, n, hroot, rfl, rfl⟩

/-- The block around a node has it as a child. -/
theorem isChild (h : Represents t o) {frame : NodeFrame} {frames : List NodeFrame} {n : Node}
    (hroot : o.root = Node.plug (frame :: frames) n) : t.IsChild n.id frame.head.id := by
  refine ⟨_, (h.includes (n := frame.attach n) hroot).get?_eq, ?_⟩
  simp [NodeFrame.attach, Node.entry, Node.body, Entry.children]

/-- A child is a node whose innermost block is the one that has it as a child. -/
theorem locate_child (h : Represents t o) {id block : NodeId} (hchild : t.IsChild id block) :
    ∃ frame frames n, o.root = Node.plug (frame :: frames) n ∧ n.id = id ∧
      frame.head.id = block := by
  obtain ⟨e, he, hmem⟩ := hchild
  obtain ⟨frames, n, hroot, rfl, rfl⟩ := h.locate_live he
  cases n with
  | leaf head content => cases hmem
  | block head children =>
    obtain ⟨c, hc, rfl⟩ := List.mem_map.mp hmem
    obtain ⟨before, after, rfl⟩ := List.append_of_mem hc
    exact ⟨⟨head, before, after⟩, frames, c, hroot, rfl, rfl⟩

theorem root_above (h : Represents t o) {frames : List NodeFrame} {n : Node}
    (hroot : o.root = Node.plug frames n) : t.ancestor? frames.length n.id = some t.root := by
  induction frames generalizing n with
  | nil => rw [h.root, hroot, Node.plug, List.length_nil, Tree.ancestor?]
  | cons frame frames ih =>
    rw [List.length_cons, Tree.ancestor?, (h.includes hroot).get?_eq]
    exact ih (n := frame.attach n) hroot

theorem below_root (h : Represents t o) {frames : List NodeFrame} {n : Node}
    (hroot : o.root = Node.plug frames n) : Relation.ReflTransGen t.IsChild n.id t.root := by
  induction frames generalizing n with
  | nil => rw [h.root, hroot, Node.plug]
  | cons frame frames ih =>
    exact Relation.ReflTransGen.head (h.isChild hroot) (ih (n := frame.attach n) hroot)

/-- A child has fewer names below it than its block, so children end. -/
theorem wellFounded (h : Represents t o) : WellFounded t.IsChild := by
  let count (id : NodeId) : Nat := (o.root.find? id).elim 0 (·.ids.length)
  refine Subrelation.wf (r := InvImage (· < ·) count) ?_ (InvImage.wf count Nat.lt_wfRel.wf)
  intro id block hchild
  obtain ⟨frame, frames, n, hroot, rfl, rfl⟩ := h.locate_child hchild
  have hnodup := h.nodup
  rw [hroot] at hnodup
  have hn : o.root.find? n.id = some n := by rw [hroot, Node.find?_plug_self hnodup]
  have hblock : o.root.find? frame.head.id = some (frame.attach n) := by
    rw [hroot]
    exact Node.find?_plug_self (n := frame.attach n) hnodup
  show (o.root.find? n.id).elim 0 _ < (o.root.find? frame.head.id).elim 0 _
  rw [hn, hblock]
  exact Node.length_ids_lt frame.head (List.mem_append_right _ List.mem_cons_self)

/-- Every walk of a tree has the levels that it needs. -/
theorem walks (h : Represents t o) {frames : List NodeFrame} {n : Node}
    (hroot : o.root = Node.plug frames n) {levels : Nat} (hlevels : t.levels ≤ levels) :
    (∃ c, t.snapshot n.id = .ok c ∧ Arena.snapshotAt levels t.arena n.id = .ok c) ∧
    Arena.firstLeafAt? levels t.arena n.id = t.firstLeaf? n.id ∧
    (∀ labels, Arena.describeAt labels levels t.arena n.id = t.describe n.id labels) ∧
    Arena.compileAt levels t.arena n.id = Arena.compileAt t.levels t.arena n.id ∧
    Arena.extractAt levels t.arena n.id = Arena.extractAt t.levels t.arena n.id ∧
    ∀ notice, Arena.touchAt notice levels t.arena (some n.id) =
      Arena.touchAt notice t.levels t.arena (some n.id) := by
  have hincludes := h.includes hroot
  have hfew := h.node_levels hroot
  have hmore := Nat.le_trans hfew hlevels
  have hstores := h.stores
  rw [hroot] at hstores
  have hnode := hstores
  rw [Node.entries_plug] at hnode
  obtain ⟨a, ha, -⟩ := Arena.compileAt_spec hnode
  obtain ⟨b, hb, -⟩ := Arena.extractAt_spec hnode
  refine ⟨⟨n.toCondition, ?_, ?_⟩, ?_, ?_, ?_, ?_, ?_⟩
  · exact Arena.snapshotAt_spec hfew hincludes
  · exact Arena.snapshotAt_spec hmore hincludes
  · rw [Tree.firstLeaf?, Arena.firstLeafAt?_spec hmore hincludes,
      Arena.firstLeafAt?_spec hfew hincludes]
  · intro labels
    rw [Tree.describe, Arena.describeAt_spec labels hmore hincludes,
      Arena.describeAt_spec labels hfew hincludes]
  · rw [ha levels hmore, ha t.levels hfew]
  · rw [hb levels hmore, hb t.levels hfew]
  · intro notice
    obtain ⟨d, hd, -⟩ := Arena.touchAt_spec notice hstores
    have hup : frames.length < t.levels :=
      Nat.lt_of_lt_of_le (hroot ▸ Node.length_le_ids_plug frames n) h.levels
    rw [hd levels (Nat.lt_of_lt_of_le hup hlevels), hd t.levels hup]

/-- The conditions below the root are counted, without the root. -/
theorem size_add_one (h : Represents t o) :
    t.size + 1 = o.root.ids.length ∧ t.arena.free.length + 1 + t.size = t.arena.slots.length := by
  have hcard := h.stores.card_add_length_free
  have hpos : 0 < o.root.ids.length := List.length_pos_of_mem o.root.id_mem_ids
  rw [Node.card_entries] at hcard
  rw [Tree.size]
  omega

/-- A tree that represents an outline is well-formed. -/
theorem wellFormed (h : Represents t o) : t.WellFormed where
  root_block := by
    have hself : o.root = Node.plug [] o.root := rfl
    refine ⟨_, h.root ▸ (h.includes hself).get?_eq, ?_, rfl⟩
    have := h.isBlock
    cases hn : o.root with
    | leaf head content => rw [hn] at this; cases this
    | block head children => rfl
  parent_block := by
    intro id e he hid
    obtain ⟨frames, n, hroot, rfl, rfl⟩ := h.locate_live he
    cases frames with
    | nil => exact absurd (by rw [h.root, hroot, Node.plug]) hid
    | cons frame frames =>
      refine ⟨frame.head.id, _, rfl, (h.includes (n := frame.attach n) hroot).get?_eq, rfl, ?_, ?_⟩
      · have hnodup := h.nodup
        rw [hroot] at hnodup
        exact List.count_eq_one_of_mem (Node.nodup_children hnodup)
          (List.mem_map_of_mem (List.mem_append_right _ List.mem_cons_self))
      · intro other hother
        obtain ⟨frame', frames', m, hroot', hid', rfl⟩ := h.locate_child hother
        have hentry := (h.includes hroot').get?_eq
        rw [hid', he] at hentry
        exact (Option.some.inj (congrArg Entry.parent? (Option.some.inj hentry))).symm
  child_parent := by
    intro id block hchild
    obtain ⟨frame, frames, n, hroot, rfl, rfl⟩ := h.locate_child hchild
    exact ⟨_, (h.includes hroot).get?_eq, rfl⟩
  root_above := by
    intro id hid
    obtain ⟨e, he⟩ := Option.isSome_iff_exists.mp hid
    obtain ⟨frames, n, hroot, rfl, -⟩ := h.locate_live he
    exact ⟨frames.length, h.root_above hroot⟩
  below_root := by
    intro id hid
    obtain ⟨e, he⟩ := Option.isSome_iff_exists.mp hid
    obtain ⟨frames, n, hroot, rfl, -⟩ := h.locate_live he
    exact h.below_root hroot
  wellFounded := h.wellFounded
  walks := by
    intro id hid levels hlevels
    obtain ⟨e, he⟩ := Option.isSome_iff_exists.mp hid
    obtain ⟨frames, n, hroot, rfl, -⟩ := h.locate_live he
    exact h.walks hroot hlevels
  tidy := h.stores.tidy
  size_eq := by
    obtain ⟨hsize, hfree⟩ := h.size_add_one
    refine ⟨o.root.toCondition, ?_, ?_, hfree⟩
    · rw [Tree.snapshot, h.root]
      have hself : o.root = Node.plug [] o.root := rfl
      exact Arena.snapshotAt_spec h.levels (h.includes hself)
    · rw [Node.nodeCount_toCondition, hsize]

end Represents

/-- Every tree that comes about by edits is well-formed. -/
theorem Tree.wellFormed_run (factory : OperatorFactory) (edits : List Edit) :
    ((Tree.ofFactory factory).run edits).WellFormed :=
  (represents_run factory edits).wellFormed

end EntityQuery
