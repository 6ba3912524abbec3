import EntityQuery.Proofs.Tree.Surroundings
import EntityQuery.Proofs.Tree.Walks

/-!
# Trees and their outlines

A tree represents an outline if its arena stores the entries of the outline's nodes. Such a tree
answers every question as the outline does.

* `Represents` — the relation; `represents_ofFactory` for the tree without conditions.
* `Represents.known_or_unknown` — a name is that of a node in its surroundings, or of nothing.
* `Represents.entry_eq`, `Represents.children_eq`, `Represents.content_eq` — questions about one
  condition.
* `Represents.snapshot_eq`, `Represents.outline_eq`, `Represents.firstLeaf?_eq`,
  `Represents.describe_eq`, `Represents.compile_spec` — questions about all below it.
-/

namespace EntityQuery

/-- A tree represents an outline: the arena stores its nodes, with its numbering of slots. -/
structure Represents (t : Tree) (o : Outline) : Prop where
  stores : t.arena.Stores (o.root.entries none)
  slots : t.arena.numbering = o.slots
  root : t.root = o.root.id
  isBlock : o.root.isBlock
  factory : t.factory = o.factory
  nextListener : t.nextListener = o.nextListener

/-- The tree without conditions represents the outline without conditions. -/
theorem represents_ofFactory (factory : OperatorFactory) :
    Represents (Tree.ofFactory factory) (Outline.ofFactory factory) where
  stores := by
    refine ⟨⟨List.nodup_nil, ?_⟩, Multiset.nodup_singleton _, ?_⟩
    · intro i
      cases i <;> simp [Tree.ofFactory]
    · intro id e
      rw [Arena.get?_eq_some]
      obtain ⟨index, generation⟩ := id
      cases index <;> simp [Tree.ofFactory, Outline.ofFactory, Node.entries, Node.entry, Node.body,
        Node.head, eq_comm]
  slots := rfl
  root := rfl
  isBlock := rfl
  factory := rfl
  nextListener := rfl

namespace Represents

variable {t : Tree} {o : Outline}

theorem nodup (h : Represents t o) : o.root.ids.Nodup := h.stores.nodup_ids

/-- There are levels enough for every walk. -/
theorem levels (h : Represents t o) : o.root.ids.length ≤ t.levels := by
  rw [← Node.card_entries none]
  exact h.stores.card_le

/-- The root is the root of the outline. -/
theorem node_root (h : Represents t o) : o.node t.root = .ok o.root := by
  rw [Outline.node, h.root, Node.find?_self]

/-- The entries of a node are in the arena. -/
theorem includes (h : Represents t o) {frames : List NodeFrame} {n : Node}
    (hroot : o.root = Node.plug frames n) : t.arena.Includes (n.entries (Node.above frames)) := by
  have := h.stores
  rw [hroot, Node.entries_plug] at this
  exact this.includes

theorem node_levels (h : Represents t o) {frames : List NodeFrame} {n : Node}
    (hroot : o.root = Node.plug frames n) : n.ids.length ≤ t.levels := by
  have hlevels := h.levels
  rw [hroot, (Node.ids_plug_perm frames n).length_eq, List.length_append] at hlevels
  omega

theorem get?_eq_none (h : Represents t o) {id : NodeId} (hid : o.root.find? id = none) :
    t.arena.get? id = none := by
  rw [Node.find?_eq_none] at hid
  cases he : t.arena.get? id with
  | none => rfl
  | some e =>
    refine absurd ?_ hid
    rw [← Multiset.mem_coe, ← Node.map_fst_entries none]
    exact Multiset.mem_map.mpr ⟨(id, e), (h.stores.mem id e).mp he, rfl⟩

/-- A name is that of a node in its surroundings, or of nothing in the outline and in the arena. -/
theorem known_or_unknown (h : Represents t o) (id : NodeId) :
    (∃ frames n, o.root = Node.plug frames n ∧ n.id = id ∧ o.root.find? id = some n ∧
        o.node id = .ok n) ∨
      o.root.find? id = none ∧ o.node id = .error (.unknownCondition id) ∧
        t.arena.get? id = none := by
  rw [Outline.node]
  cases hn : o.root.find? id with
  | some n =>
    obtain ⟨frames, hroot, hid⟩ := Node.exists_plug_of_find? h.nodup hn
    exact Or.inl ⟨frames, n, hroot, hid, rfl, rfl⟩
  | none => exact Or.inr ⟨rfl, rfl, h.get?_eq_none hn⟩

/-! ### Questions about one condition -/

theorem entry_eq (h : Represents t o) (id : NodeId) :
    t.entry id = (o.node id).map fun n => n.entry (o.root.parent? id) := by
  obtain ⟨frames, n, hroot, rfl, -, hn⟩ | ⟨-, hn, hnone⟩ := h.known_or_unknown id
  · have hnodup := h.nodup
    rw [hroot] at hnodup
    rw [hn, Tree.entry, (h.includes hroot).get?_eq, hroot, Node.parent?_plug_self hnodup]
    rfl
  · rw [hn, Tree.entry, hnone]
    rfl

/-- A name is in use exactly if the outline has a node of that name. -/
theorem contains_eq (h : Represents t o) (id : NodeId) : t.contains id = (o.node id).isOk := by
  have hentry := h.entry_eq id
  rw [Tree.entry] at hentry
  rw [Tree.contains]
  cases hn : o.node id <;> cases he : t.arena.get? id <;> rw [hn, he] at hentry <;>
    first | rfl | cases hentry

theorem children_eq (h : Represents t o) (id : NodeId) :
    t.children id = (o.children id).map (·.map Node.id) := by
  rw [Tree.children, h.entry_eq, Outline.children]
  cases o.node id with
  | error e => rfl
  | ok n => cases n <;> rfl

theorem content_eq (h : Represents t o) (id : NodeId) : t.content id = o.content id := by
  rw [Tree.content, h.entry_eq, Outline.content]
  cases o.node id with
  | error e => rfl
  | ok n => cases n <;> rfl

/-! ### Questions about all below a condition -/

theorem snapshot_eq (h : Represents t o) (id : NodeId) :
    t.snapshot id = (o.node id).map Node.toCondition := by
  obtain ⟨frames, n, hroot, rfl, -, hn⟩ | ⟨-, hn, hnone⟩ := h.known_or_unknown id
  · rw [hn, Tree.snapshot, Arena.snapshotAt_spec (h.node_levels hroot) (h.includes hroot)]
    rfl
  · rw [hn, Tree.snapshot, Arena.snapshotAt_unknown hnone]
    rfl

theorem describe_eq (h : Represents t o) (id : NodeId) (labels : Labels) :
    t.describe id labels = (o.node id).map (·.toCondition.text labels) := by
  obtain ⟨frames, n, hroot, rfl, -, hn⟩ | ⟨-, hn, hnone⟩ := h.known_or_unknown id
  · rw [hn, Tree.describe, Arena.describeAt_spec labels (h.node_levels hroot) (h.includes hroot)]
    rfl
  · rw [hn, Tree.describe, Arena.describeAt_unknown labels hnone]
    rfl

theorem firstLeaf?_eq (h : Represents t o) (id : NodeId) :
    t.firstLeaf? id = (o.root.find? id).bind Node.firstLeaf? := by
  obtain ⟨frames, n, hroot, rfl, hn, -⟩ | ⟨hn, -, hnone⟩ := h.known_or_unknown id
  · rw [hn, Tree.firstLeaf?, Arena.firstLeafAt?_spec (h.node_levels hroot) (h.includes hroot)]
    rfl
  · rw [hn, Tree.firstLeaf?, Arena.firstLeafAt?_unknown hnone]
    rfl

/-- The nested nodes of a tree are those of the outline. -/
theorem outline_eq (h : Represents t o) : t.outline = o.root := by
  have hroot : o.root = Node.plug [] o.root := rfl
  rw [Tree.outline, h.root, Arena.outlineAt_spec (h.node_levels hroot) (h.includes hroot)]
  rfl

/-! ### Changes -/

/-- Another root is stored, with the same name. -/
theorem withRoot (h : Represents t o) {root : Node} {a : Arena} {s : Slots}
    (hid : root.id = o.root.id) (hblock : root.isBlock = o.root.isBlock)
    (hstores : a.Stores (root.entries none)) (hnum : a.numbering = s) :
    Represents { t with arena := a } { o with root := root, slots := s } where
  stores := hstores
  slots := hnum
  root := h.root.trans hid.symm
  isBlock := hblock.trans h.isBlock
  factory := h.factory
  nextListener := h.nextListener

/-- Another node comes in the place of a node, with the same name and of the same kind. -/
theorem replace (h : Represents t o) {frames : List NodeFrame} {m n : Node} {a : Arena} {s : Slots}
    (hroot : o.root = Node.plug frames m) (hid : n.id = m.id) (hblock : n.isBlock = m.isBlock)
    (hstores : a.Stores ((Node.plug frames n).entries none)) (hnum : a.numbering = s) :
    Represents { t with arena := a } { o with root := Node.plug frames n, slots := s } :=
  h.withRoot (hroot ▸ Node.id_plug frames hid) (hroot ▸ Node.isBlock_plug frames hblock) hstores
    hnum

/-- A node of a name is changed in its surroundings. -/
theorem update_eq (h : Represents t o) {frames : List NodeFrame} {n : Node}
    (hroot : o.root = Node.plug frames n) (f : Node → Node) :
    o.root.update n.id f = Node.plug frames (f n) := by
  have hnodup := h.nodup
  rw [hroot] at hnodup ⊢
  exact Node.update_plug_self hnodup f

/-- A tree and the outline that it represents compile alike. -/
theorem compile_spec (h : Represents t o) (id : NodeId) :
    match o.compile id with
    | .error e => t.compile id = .error e
    | .ok c => ∃ a, t.compile id = .ok ⟨c.expr?, { t with arena := a }, c.built⟩ ∧
        Represents { t with arena := a } c.result := by
  obtain ⟨frames, n, hroot, rfl, -, hn⟩ | ⟨-, hn, hnone⟩ := h.known_or_unknown id
  · have hstores := h.stores
    rw [hroot, Node.entries_plug] at hstores
    obtain ⟨a, ha, hnum, hes⟩ := Arena.compileAt_spec hstores
    have hid : n.compile.result.id = n.id := congrArg (·.id) (Node.head_compile n)
    have hblock : n.compile.result.isBlock = n.isBlock := by
      cases n <;> rw [Node.compile] <;> split <;> rfl
    rw [← hid, ← Node.entries_plug] at hes
    rw [Outline.compile, hn]
    refine ⟨a, ?_, ?_⟩
    · rw [Tree.compile, show t.arena.compileAt _ _ = _ from ha t.levels (h.node_levels hroot)]
      rfl
    · simp only [h.update_eq hroot]
      exact h.replace hroot hid hblock hes (hnum.trans h.slots)
  · have hunknown : t.compile id = .error (.unknownCondition id) := by
      rw [Tree.compile, Arena.compileAt_unknown hnone]
      rfl
    rw [Outline.compile, hn]
    exact hunknown

/-- Every condition compiles, and nothing else. -/
theorem isOk_compile (h : Represents t o) (id : NodeId) :
    (t.compile id).isOk = t.contains id := by
  have hcompile := h.compile_spec id
  rw [Outline.compile] at hcompile
  rw [h.contains_eq]
  cases hn : o.node id with
  | error e =>
    rw [hn] at hcompile
    rw [show t.compile id = _ from hcompile]
    rfl
  | ok n =>
    rw [hn] at hcompile
    obtain ⟨a, ha, -⟩ := hcompile
    rw [ha]
    rfl

end Represents

end EntityQuery
