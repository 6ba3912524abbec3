import EntityQuery.Proofs.Tree.Growth

/-!
# Conditions in and out of blocks

Grouping children of a block and moving children out of it are edits of the outline.

* `Represents.group` — some children of a block move into a new block at its end.
* `Represents.ungroup` — some children of a block move in front of it; an emptied block goes.
-/

namespace EntityQuery

namespace Represents

variable {t : Tree} {o : Outline}

/-- The candidates among the children of a block, as names and as nodes. -/
theorem filter_names (candidates : List NodeId) (children : List Node) :
    (children.map Node.id).filter (candidates.contains ·) =
      (children.filter (candidates.contains ·.id)).map Node.id := by
  rw [List.filter_map]
  rfl

/-- The children that are not among the candidates. -/
theorem filter_other_names (candidates : List NodeId) (children : List Node) :
    (children.map Node.id).filter
        (!((children.filter (candidates.contains ·.id)).map Node.id).contains ·) =
      (children.filter (!candidates.contains ·.id)).map Node.id := by
  rw [List.filter_map]
  apply congrArg
  apply List.filter_congr
  intro c hc
  rw [Function.comp_apply, Bool.not_inj_iff, Bool.eq_iff_iff, List.contains_iff_mem, List.mem_map]
  constructor
  · rintro ⟨m, hm, heq⟩
    rw [← heq]
    exact (List.mem_filter.mp hm).2
  · intro hcandidate
    exact ⟨c, List.mem_filter.mpr ⟨hc, hcandidate⟩, rfl⟩

/-! ### Into a new block -/

/-- Children of a block move into a new block at its end. -/
theorem gather_spec {frames : List NodeFrame} {head : Head} {children matched : List Node}
    (candidates : List NodeId) (logical : Logical)
    (hmatched : children.filter (candidates.contains ·.id) = matched)
    (h : t.arena.Stores ((Node.plug frames (.block head children)).entries none)) :
    let id := t.arena.numbering.take.1
    let names := matched.map Node.id
    let kept := children.filter (!candidates.contains ·.id)
    let group : Node := .block ⟨id, logical, none, []⟩ matched
    ∃ a b d, TreeM.onArena
          (·.alloc { parent? := some head.id, logical, body := .block names }) t =
          .ok id { t with arena := a } ∧
      TreeM.reparent names id { t with arena := a } = .ok () { t with arena := b } ∧
      TreeM.modifyChildren head.id (fun siblings => siblings.filter (!names.contains ·) ++ [id])
          { t with arena := b } = .ok () { t with arena := d } ∧
      d.numbering = t.arena.numbering.take.2 ∧
      d.Stores ((Node.plug frames (.block head (kept ++ [group]))).entries none) := by
  intro id names kept group
  have hothers := filter_other_names candidates children
  have hsplit := Node.allEntries_filter (some head.id) (candidates.contains ·.id) children
  rw [hmatched] at hothers hsplit
  obtain ⟨a, ha, hanum, haes⟩ :=
    TreeM.alloc_spec h { parent? := some head.id, logical, body := .block names }
  rw [Node.entries_plug_block, ← hsplit, add_assoc, ← Multiset.add_cons,
    ← Multiset.add_cons] at haes
  obtain ⟨b, hb, hbnum, hbes⟩ := TreeM.reparent_spec (t := { t with arena := a }) id haes
  rw [Multiset.add_cons, Multiset.add_cons, Multiset.cons_swap] at hbes
  have hregrouped : (children.map Node.id).filter (!names.contains ·) ++ [id] =
      (kept ++ [group]).map Node.id := by
    rw [show (children.map Node.id).filter (!names.contains ·) = _ from hothers, List.map_append]
    rfl
  obtain ⟨d, hd, hdnum, hdes⟩ := TreeM.modifyChildren_spec (t := { t with arena := b })
    (f := fun siblings => siblings.filter (!names.contains ·) ++ [id]) _ hbes hregrouped
  refine ⟨a, b, d, ha, hb, hd, hdnum.trans (hbnum.trans hanum), ?_⟩
  rw [Node.entries_plug_block, Node.allEntries_append, Node.allEntries_singleton, Node.entries,
    Multiset.add_cons, Multiset.cons_add, add_comm (Node.allEntries _ kept), add_assoc]
  exact hdes

theorem group (h : Represents t o) (block : NodeId) (candidates : List NodeId) :
    Simulates (TreeM.group block candidates) t (o.group block candidates) := by
  cases hchildren : o.children block with
  | error e =>
    rw [Outline.group, hchildren]
    exact TreeM.bind_error (h.ask_children_error hchildren)
  | ok children =>
    obtain ⟨frames, head, hroot, rfl⟩ := Outline.exists_plug_of_children h.nodup hchildren
    have hnames := filter_names candidates children
    rcases hmatched : children.filter (candidates.contains ·.id) with
      _ | ⟨first, _ | ⟨second, others⟩⟩
    · simp only [Outline.group, hchildren, hmatched]
      refine ⟨t, ?_, h, (List.append_nil _).symm⟩
      rw [TreeM.group, TreeM.bind_ok (h.ask_children hchildren), hnames, hmatched]
      rfl
    · simp only [Outline.group, hchildren, hmatched]
      refine ⟨t, ?_, h, (List.append_nil _).symm⟩
      rw [TreeM.group, TreeM.bind_ok (h.ask_children hchildren), hnames, hmatched]
      rfl
    · -- two or more children move into a new block
      have hask : TreeM.ask (·.entry first.id) t = .ok (first.entry (some head.id)) t := by
        have hmem : first ∈ children := (List.mem_filter.mp (hmatched ▸ List.mem_cons_self)).1
        exact TreeM.ask_ok (by rw [Tree.entry, ((h.includes hroot).child hmem).get?_eq])
      obtain ⟨a, b, d, ha, hb, hd, hnum, hes⟩ :=
        gather_spec candidates first.head.logical hmatched (hroot ▸ h.stores)
      rw [h.slots] at ha hb hd hnum hes
      let kept := children.filter (!candidates.contains ·.id)
      let group : Node :=
        .block ⟨o.slots.take.1, first.head.logical, none, []⟩ (first :: second :: others)
      have hmem : group ∈ (Node.block head (kept ++ [group])).children :=
        List.mem_append_right _ List.mem_cons_self
      rw [Outline.group_plug h.nodup hroot hmatched rfl]
      refine .of_changed (u := { t with arena := d }) ?_ ?_ rfl ?_
      · exact h.replace hroot rfl rfl hes hnum
      · exact Node.mem_ids_plug frames (Node.id_mem_ids_of_child hmem)
      · rw [TreeM.group, TreeM.bind_ok (h.ask_children hchildren), hnames, hmatched]
        exact (TreeM.bind_ok hask).trans ((TreeM.bind_ok ha).trans
          ((TreeM.bind_ok hb).trans (TreeM.bind_ok hd)))

/-! ### Out of a block -/

/-- Names in front of a name that is not before them. -/
theorem insertBefore_names (names : List NodeId) {frame : NodeFrame} {frames : List NodeFrame}
    {n : Node}
    (h : (Node.plug (frame :: frames) n).ids.Nodup) :
    TreeM.insertBefore n.id names ((frame.before ++ n :: frame.after).map Node.id) =
      frame.before.map Node.id ++ names ++ n.id :: frame.after.map Node.id := by
  have hbefore : ∀ i ∈ frame.before.map Node.id, (i != n.id) = true := by
    intro i hi
    obtain ⟨c, hc, rfl⟩ := List.mem_map.mp hi
    exact bne_iff_ne.mpr (Node.sibling_ne h (List.mem_append_left _ hc))
  rw [TreeM.insertBefore, List.map_append, List.map_cons, List.takeWhile_append_of_pos hbefore,
    List.dropWhile_append_of_pos hbefore, List.takeWhile_cons_of_neg (by simp),
    List.dropWhile_cons_of_neg (by simp), List.append_nil]

/-- Children of a block move in front of it. -/
theorem lift_spec {frame : NodeFrame} {frames : List NodeFrame} {head : Head} {children : List Node}
    (candidates : List NodeId)
    (h : t.arena.Stores ((Node.plug (frame :: frames) (.block head children)).entries none)) :
    let moved := children.filter (candidates.contains ·.id)
    let kept := children.filter (!candidates.contains ·.id)
    let names := moved.map Node.id
    ∃ a b d, TreeM.modifyChildren head.id (·.filter (!names.contains ·)) t =
          .ok () { t with arena := a } ∧
      TreeM.reparent names frame.head.id { t with arena := a } = .ok () { t with arena := b } ∧
      TreeM.modifyChildren frame.head.id (TreeM.insertBefore head.id names) { t with arena := b } =
        .ok () { t with arena := d } ∧
      d.numbering = t.arena.numbering ∧
      d.Stores ((Node.plug (⟨frame.head, frame.before ++ moved, frame.after⟩ :: frames)
        (.block head kept)).entries none) := by
  intro moved kept names
  have hnodup := h.nodup_ids
  have hsplit := Node.allEntries_filter (some head.id) (candidates.contains ·.id) children
  rw [Node.entries_plug_block] at h
  obtain ⟨a, ha, hanum, haes⟩ :=
    TreeM.modifyChildren_spec _ h (filter_other_names candidates children)
  rw [← hsplit, add_assoc, ← Multiset.add_cons] at haes
  obtain ⟨b, hb, hbnum, hbes⟩ :=
    TreeM.reparent_spec (t := { t with arena := a }) frame.head.id haes
  rw [show Node.around _ head.id = _ from Node.around_cons frame frames (.block head children),
    Multiset.add_cons, Multiset.add_cons, Multiset.add_cons, Multiset.cons_swap] at hbes
  have hbefore : TreeM.insertBefore head.id names
      ((frame.before ++ .block head children :: frame.after).map Node.id) =
        (frame.before ++ moved ++ .block head kept :: frame.after).map Node.id := by
    rw [show TreeM.insertBefore head.id names _ = _ from insertBefore_names names hnodup]
    simp [names]
  obtain ⟨d, hd, hdnum, hdes⟩ :=
    TreeM.modifyChildren_spec (t := { t with arena := b }) _ hbes hbefore
  refine ⟨a, b, d, ha, hb, hd, hdnum.trans (hbnum.trans hanum), ?_⟩
  rw [Node.entries_plug_block, show Node.around _ head.id = _ from
    Node.around_cons ⟨frame.head, frame.before ++ moved, frame.after⟩ frames (.block head kept)]
  have hrest : Node.allEntries (some head.id) kept +
      (Node.allEntries (some frame.head.id) (frame.before ++ moved ++ frame.after) +
        Node.around frames frame.head.id) =
      Node.allEntries (some frame.head.id) moved + (Node.allEntries (some head.id) kept +
        (Node.allEntries (some frame.head.id) (frame.before ++ frame.after) +
          Node.around frames frame.head.id)) := by
    simp only [Node.allEntries_append]
    abel
  rw [Multiset.add_cons, Multiset.cons_swap, hrest]
  exact hdes

/-- What is left to do once children of a block have moved in front of it: an emptied block is taken
out. -/
def settle (block parent : NodeId) : TreeM Bool := do
  if (← TreeM.ask (·.children block)).isEmpty then
    TreeM.modifyChildren parent (·.filter (· != block))
    let _ ← TreeM.extract block
    TreeM.changed parent ⟨block, .ungrouped⟩
  else
    TreeM.changed block ⟨block, .ungrouped⟩
  return true

section Settling

variable {frame : NodeFrame} {frames : List NodeFrame} {head : Head}
  {children moved kept : List Node} {d : Arena} {call : TreeM Bool}

theorem ask_kept (hes : d.Stores ((Node.plug frames (.block head kept)).entries none)) :
    TreeM.ask (·.children head.id) { t with arena := d } =
      .ok (kept.map Node.id) { t with arena := d } := by
  rw [Node.entries_plug_block] at hes
  exact TreeM.ask_ok (TreeM.children_of_stores hes)

/-- An emptied block is taken out. -/
theorem settle_emptied (h : Represents t o)
    (hroot : o.root = Node.plug (frame :: frames) (.block head children))
    (hes : d.Stores ((Node.plug (⟨frame.head, frame.before ++ moved, frame.after⟩ :: frames)
      (.block head [])).entries none))
    (hnum : d.numbering = t.arena.numbering)
    (hcall : call t = settle head.id frame.head.id { t with arena := d }) :
    Simulates call t (.ok ((o.place frames
      (.block frame.head (frame.before ++ moved ++ frame.after))
      (o.slots.giveBack head.id)).changed true frame.head.id ⟨head.id, .ungrouped⟩)) := by
  obtain ⟨a, b, ha, hb, hnum', hes'⟩ := detach (t := { t with arena := d }) hes
  refine .of_changed (u := { t with arena := b }) ?_ ?_ rfl ?_
  · refine h.replace (m := frame.attach (.block head children)) hroot rfl rfl hes' ?_
    rw [hnum', hnum, h.slots, Node.ids_block]
    rfl
  · exact Node.mem_ids_plug frames (Node.id_mem_ids _)
  · rw [hcall, settle, TreeM.bind_ok (ask_kept hes), List.map_nil, List.isEmpty_nil, if_pos rfl]
    exact (TreeM.bind_ok ha).trans (TreeM.bind_ok hb)

/-- A block that keeps children stays. -/
theorem settle_kept (h : Represents t o)
    (hroot : o.root = Node.plug (frame :: frames) (.block head children))
    (hes : d.Stores ((Node.plug (⟨frame.head, frame.before ++ moved, frame.after⟩ :: frames)
      (.block head kept)).entries none))
    (hnum : d.numbering = t.arena.numbering) (hrest : kept ≠ [])
    (hcall : call t = settle head.id frame.head.id { t with arena := d }) :
    Simulates call t (.ok ((o.place (⟨frame.head, frame.before ++ moved, frame.after⟩ :: frames)
      (.block head kept) o.slots).changed true head.id ⟨head.id, .ungrouped⟩)) := by
  let after : NodeFrame := ⟨frame.head, frame.before ++ moved, frame.after⟩
  have hparent : o.root = Node.plug frames (frame.attach (.block head children)) := hroot
  have hrep := h.replace (n := after.attach (.block head kept)) hparent rfl rfl hes
    (hnum.trans h.slots)
  refine .of_changed (u := { t with arena := d }) hrep ?_ rfl ?_
  · exact Node.mem_ids_plug _ (Node.id_mem_ids (.block head kept))
  · rw [hcall, settle, TreeM.bind_ok (ask_kept hes), List.isEmpty_map,
      List.isEmpty_eq_false_iff.mpr hrest, if_neg Bool.false_ne_true]

end Settling

theorem ungroup (h : Represents t o) (block : NodeId) (candidates : List NodeId) :
    Simulates (TreeM.ungroup block candidates) t (o.ungroup block candidates) := by
  cases hchildren : o.children block with
  | error e =>
    rw [Outline.ungroup, hchildren]
    exact TreeM.bind_error (h.ask_children_error hchildren)
  | ok children =>
    obtain ⟨frames, head, hroot, rfl⟩ := Outline.exists_plug_of_children h.nodup hchildren
    have hnames := filter_names candidates children
    have hentry : TreeM.ask (·.entry head.id) t =
        .ok ((Node.block head children).entry (Node.above frames)) t :=
      TreeM.ask_ok (by rw [Tree.entry, ← Node.id_block head children, (h.includes hroot).get?_eq])
    have hparent : o.root.parent? head.id = Node.above frames := Outline.parent?_plug h.nodup hroot
    cases frames with
    | nil =>
      simp only [Outline.ungroup, hchildren, hparent, Node.above, List.head?_nil, Option.map_none]
      refine ⟨t, ?_, h, (List.append_nil _).symm⟩
      rw [TreeM.ungroup, TreeM.bind_ok (h.ask_children hchildren), TreeM.bind_ok hentry]
      rfl
    | cons frame frames =>
      by_cases hsome : children.filter (candidates.contains ·.id) = []
      · have hnone : children.all (!candidates.contains ·.id) :=
          (Node.all_not_iff_filter_eq_nil _ _).mpr hsome
        simp only [Outline.ungroup, hchildren, hparent, Node.above, List.head?_cons,
          Option.map_some, if_pos hnone]
        refine ⟨t, ?_, h, (List.append_nil _).symm⟩
        rw [TreeM.ungroup, TreeM.bind_ok (h.ask_children hchildren), TreeM.bind_ok hentry, hnames,
          hsome]
        rfl
      · obtain ⟨a, b, d, ha, hb, hd, hnum, hes⟩ := lift_spec candidates (hroot ▸ h.stores)
        have hcall : TreeM.ungroup head.id candidates t =
            settle head.id frame.head.id { t with arena := d } := by
          have hmoved : ((children.filter (candidates.contains ·.id)).map Node.id).isEmpty = false :=
            List.isEmpty_eq_false_iff.mpr (mt List.map_eq_nil_iff.mp hsome)
          rw [TreeM.ungroup, TreeM.bind_ok (h.ask_children hchildren), TreeM.bind_ok hentry, hnames]
          simp only [Node.entry, Node.above, List.head?_cons, Option.map_some, hmoved,
            Bool.false_eq_true, if_false]
          exact (TreeM.bind_ok ha).trans ((TreeM.bind_ok hb).trans (TreeM.bind_ok hd))
        by_cases hrest : children.filter (!candidates.contains ·.id) = []
        · have hall : children.all (candidates.contains ·.id) :=
            (Node.all_iff_filter_eq_nil _ _).mpr hrest
          have hmoved : children.filter (candidates.contains ·.id) = children :=
            List.filter_eq_self.mpr (List.all_eq_true.mp hall)
          rw [hrest, hmoved] at hes
          rw [Outline.ungroup_plug_emptied h.nodup hroot (hmoved ▸ hsome) hall]
          exact settle_emptied h hroot hes hnum hcall
        · rw [Outline.ungroup_plug_kept h.nodup hroot rfl rfl hsome hrest]
          exact settle_kept h hroot hes hnum hrest hcall

end Represents

end EntityQuery
