import EntityQuery.Proofs.Tree.Setters

/-!
# Conditions come and go

The edits that add conditions to a block or take them out are edits of the outline.

* `Represents.add`, `Represents.createNew`, `Represents.createFromTemplate` — conditions come.
* `Represents.remove`, `Represents.clear` — conditions go.
-/

namespace EntityQuery

namespace Represents

variable {t : Tree} {o : Outline}

theorem ask_children (h : Represents t o) {id : NodeId} {children : List Node}
    (hchildren : o.children id = .ok children) :
    TreeM.ask (·.children id) t = .ok (children.map Node.id) t :=
  TreeM.ask_ok (by rw [h.children_eq, hchildren]; rfl)

theorem ask_children_error (h : Represents t o) {id : NodeId} {e : ConditionError}
    (hchildren : o.children id = .error e) : TreeM.ask (·.children id) t = .error e t :=
  TreeM.ask_error (by rw [h.children_eq, hchildren]; rfl)

/-! ### Conditions come -/

theorem add (h : Represents t o) (block : NodeId) (c : Condition) :
    Simulates (TreeM.add block c) t (o.add block c) := by
  cases hchildren : o.children block with
  | error e =>
    rw [Outline.add, hchildren]
    exact TreeM.bind_error (h.ask_children_error hchildren)
  | ok children =>
    obtain ⟨frames, head, hroot, rfl⟩ := Outline.exists_plug_of_children h.nodup hchildren
    obtain ⟨a, ha, hanum, haes⟩ := TreeM.insert_spec (some head.id) h.stores c
    rw [h.slots] at ha hanum haes
    generalize hplant : Node.plant o.slots c = planted at ha hanum haes
    obtain ⟨n, slots⟩ := planted
    rw [hroot, Node.entries_plug_block, Multiset.add_cons] at haes
    obtain ⟨b, hb, hbnum, hbes⟩ := TreeM.modifyChildren_spec (t := { t with arena := a })
      (f := (· ++ [n.id])) (children ++ [n]) haes (by simp)
    have hes : b.Stores ((Node.plug frames (.block head (children ++ [n]))).entries none) := by
      rw [Node.entries_plug_block, Node.allEntries_append, Node.allEntries_singleton,
        add_assoc, add_left_comm]
      exact hbes
    have hmem : n ∈ (Node.block head (children ++ [n])).children :=
      List.mem_append_right _ List.mem_cons_self
    rw [Outline.add_plug h.nodup hroot hplant]
    refine .of_changed (u := { t with arena := b }) ?_ ?_ rfl ?_
    · exact h.replace hroot rfl rfl hes (hbnum.trans hanum)
    · exact Node.mem_ids_plug frames (Node.id_mem_ids_of_child hmem)
    · rw [TreeM.add, TreeM.bind_ok (h.ask_children hchildren), TreeM.bind_ok ha]
      exact TreeM.bind_ok hb

theorem createNew (h : Represents t o) (block : NodeId) (path : Path) (operator? : Option Operator)
    (value? : Option Value) :
    Simulates (TreeM.createNew block path operator? value?) t
      (o.createNew block path operator? value?) := by
  rw [Outline.createNew, ← h.factory]
  cases hchildren : o.children block with
  | error e => exact TreeM.bind_error (h.ask_children_error hchildren)
  | ok children =>
    cases hoperator : operator?.or (t.factory.defaultFor? path) with
    | none =>
      show TreeM.createNew block path operator? value? t = _
      rw [TreeM.createNew, TreeM.bind_ok (h.ask_children hchildren), TreeM.bind_ok TreeM.get_eq,
        hoperator]
      rfl
    | some operator =>
      refine (h.add block _).congr ?_
      rw [TreeM.createNew, TreeM.bind_ok (h.ask_children hchildren), TreeM.bind_ok TreeM.get_eq,
        hoperator]

theorem createFromTemplate (h : Represents t o) (block : NodeId) :
    Simulates (TreeM.createFromTemplate block) t (o.createFromTemplate block) := by
  rw [Outline.createFromTemplate, ← h.firstLeaf?_eq]
  cases hchildren : o.children block with
  | error e => exact TreeM.bind_error (h.ask_children_error hchildren)
  | ok children =>
    cases hfirst : t.firstLeaf? block with
    | none =>
      show TreeM.createFromTemplate block t = _
      rw [TreeM.createFromTemplate, TreeM.bind_ok (h.ask_children hchildren),
        TreeM.bind_ok TreeM.get_eq, hfirst]
      rfl
    | some first =>
      simp only
      cases hcontent : o.content first with
      | error e =>
        show TreeM.createFromTemplate block t = _
        rw [TreeM.createFromTemplate, TreeM.bind_ok (h.ask_children hchildren),
          TreeM.bind_ok TreeM.get_eq, hfirst]
        exact TreeM.bind_error (TreeM.ask_error ((h.content_eq first).trans hcontent))
      | ok template =>
        refine (h.createNew block template.path (some template.operator) none).congr ?_
        rw [TreeM.createFromTemplate, TreeM.bind_ok (h.ask_children hchildren),
          TreeM.bind_ok TreeM.get_eq, hfirst]
        exact TreeM.bind_ok (TreeM.ask_ok ((h.content_eq first).trans hcontent))

/-! ### Conditions go -/

/-- A node is taken out of its surroundings: its block loses it as a child, and it is extracted. -/
theorem detach {frame : NodeFrame} {frames : List NodeFrame} {n : Node}
    (h : t.arena.Stores ((Node.plug (frame :: frames) n).entries none)) :
    ∃ a b, TreeM.modifyChildren frame.head.id (·.filter (· != n.id)) t =
          .ok () { t with arena := a } ∧
      TreeM.extract n.id { t with arena := a } = .ok (some n.toCondition) { t with arena := b } ∧
      b.numbering = t.arena.numbering.giveBackAll n.ids ∧
      b.Stores
        ((Node.plug frames (.block frame.head (frame.before ++ frame.after))).entries none) := by
  have hnodup := h.nodup_ids
  rw [Node.plug, NodeFrame.attach, Node.entries_plug_block] at h
  have hnames : ((frame.before ++ n :: frame.after).map Node.id).filter (· != n.id) =
      (frame.before ++ frame.after).map Node.id := by
    rw [List.filter_map, ← Node.filter_siblings hnodup]
    rfl
  obtain ⟨a, ha, hanum, haes⟩ := TreeM.modifyChildren_spec _ h hnames
  have hsplit : Node.allEntries (some frame.head.id) (frame.before ++ n :: frame.after) =
      n.entries (some frame.head.id) +
        Node.allEntries (some frame.head.id) (frame.before ++ frame.after) := by
    rw [Node.allEntries_append, Node.allEntries, Node.allEntries_append, add_left_comm]
  rw [hsplit, add_assoc, ← Multiset.add_cons] at haes
  obtain ⟨b, hb, hbnum, hbes⟩ := TreeM.extract_spec (t := { t with arena := a }) haes
  refine ⟨a, b, ha, hb, hbnum.trans (congrArg (·.giveBackAll n.ids) hanum), ?_⟩
  rw [Node.entries_plug_block]
  exact hbes

theorem remove (h : Represents t o) (id : NodeId) :
    Simulates (TreeM.remove id) t (o.remove id) := by
  by_cases hid : id = t.root
  · rw [Outline.remove, if_pos (hid.trans h.root)]
    show TreeM.remove id t = _
    rw [TreeM.remove, TreeM.bind_ok TreeM.get_eq, if_pos hid]
    rfl
  have hentry := h.entry_eq id
  cases hn : o.node id with
  | error e =>
    rw [hn] at hentry
    rw [Outline.remove, if_neg (h.root ▸ hid), hn]
    show TreeM.remove id t = _
    rw [TreeM.remove, TreeM.bind_ok TreeM.get_eq, if_neg hid]
    exact TreeM.bind_error (TreeM.ask_error hentry)
  | ok n =>
    obtain ⟨frames, hroot, rfl⟩ := Outline.exists_plug_of_node h.nodup hn
    cases frames with
    | nil => exact absurd (by rw [h.root, hroot, Node.plug]) hid
    | cons frame frames =>
      rw [hn, Outline.parent?_plug h.nodup hroot] at hentry
      obtain ⟨a, b, ha, hb, hnum, hes⟩ := detach (hroot ▸ h.stores)
      rw [Outline.remove_plug h.nodup hroot]
      refine .of_changed (u := { t with arena := b }) ?_ ?_ rfl ?_
      · exact h.replace (m := frame.attach n) hroot rfl rfl hes (by rw [hnum, h.slots])
      · exact Node.mem_ids_plug frames (Node.id_mem_ids _)
      · have hask : TreeM.ask (·.entry n.id) t = .ok (n.entry (some frame.head.id)) t :=
          TreeM.ask_ok hentry
        rw [TreeM.remove, TreeM.bind_ok TreeM.get_eq, if_neg hid]
        exact (TreeM.bind_ok hask).trans ((TreeM.bind_ok ha).trans (TreeM.bind_ok hb))

theorem clear (h : Represents t o) (block : NodeId) :
    Simulates (TreeM.clear block) t (o.clear block) := by
  cases hchildren : o.children block with
  | error e =>
    rw [Outline.clear, hchildren]
    exact TreeM.bind_error (h.ask_children_error hchildren)
  | ok children =>
    obtain ⟨frames, head, hroot, rfl⟩ := Outline.exists_plug_of_children h.nodup hchildren
    have hes := h.stores
    rw [hroot, Node.entries_plug_block] at hes
    obtain ⟨a, ha, hanum, haes⟩ := TreeM.modifyChildren_spec (f := fun _ => []) [] hes rfl
    rw [← Multiset.add_cons] at haes
    obtain ⟨b, hb, hbnum, hbes⟩ := TreeM.extract_forM_spec (t := { t with arena := a }) haes
    have hstores : b.Stores ((Node.plug frames (.block head [])).entries none) := by
      rw [Node.entries_plug_block, Node.allEntries_nil, zero_add]
      exact hbes
    rw [Outline.clear_plug h.nodup hroot]
    refine .of_changed (u := { t with arena := b }) ?_ ?_ rfl ?_
    · refine h.replace hroot rfl rfl hstores (hbnum.trans ?_)
      rw [show a.numbering = _ from hanum, h.slots]
    · exact Node.mem_ids_plug frames (Node.id_mem_ids _)
    · rw [TreeM.clear, TreeM.bind_ok (h.ask_children hchildren), TreeM.bind_ok ha]
      exact TreeM.bind_ok hb

end Represents

end EntityQuery
