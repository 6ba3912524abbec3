import EntityQuery.Proofs.Tree.Nesting

/-!
# Edits in their surroundings

A name with which a question or an edit succeeds is that of one node of the outline, in some
surroundings. An edit puts another node in the place of that node or of the block around it.

* `Outline.exists_plug_of_node`, `Outline.exists_plug_of_children`,
  `Outline.exists_plug_of_content` — the node of a name.
* `Outline.place` — the outline with another node in some surroundings.
* `Outline.add_plug`, `Outline.remove_plug`, `Outline.clear_plug`, `Outline.group_plug`,
  `Outline.ungroup_plug_emptied`, `Outline.ungroup_plug_kept`, `Outline.setContent_plug` — the
  edits.
-/

namespace EntityQuery

namespace Node

/-- A node in some surroundings does not have the name of the outermost block. -/
theorem id_ne_plug {frame : NodeFrame} {frames : List NodeFrame} {n : Node}
    (h : (plug (frame :: frames) n).ids.Nodup) : n.id ≠ (plug (frame :: frames) n).id := by
  intro heq
  have hparent := parent?_plug_self h
  rw [heq, parent?, lineage_self] at hparent
  cases hparent

/-- A block whose children have moved out has left the tree. -/
theorem not_mem_ids_emptied {frame : NodeFrame} {frames : List NodeFrame} {head : Head}
    {children : List Node}
    (h : (plug (frame :: frames) (block head children)).ids.Nodup) :
    head.id ∉ (plug frames (block frame.head (frame.before ++ children ++ frame.after))).ids := by
  have hframes := not_mem_frameIds h (id_mem_ids _)
  have hbelow := ((ids_plug_perm _ _).nodup_iff.mp h).of_append_right
  rw [id_block, frameIds_cons, NodeFrame.ids, List.mem_append, List.mem_cons,
    List.flatMap_append, List.mem_append, not_or, not_or, not_or] at hframes
  rw [ids_block, List.nodup_cons] at hbelow
  rw [(ids_plug_perm _ _).mem_iff, ids_block]
  simp only [List.mem_append, List.mem_cons, List.flatMap_append, not_or]
  exact ⟨hframes.2, hframes.1.1, ⟨hframes.1.2.1, hbelow.1⟩, hframes.1.2.2⟩

/-- All nodes have a property exactly if there are none without it. -/
theorem all_iff_filter_eq_nil (p : Node → Bool) (ns : List Node) :
    ns.all p ↔ ns.filter (!p ·) = [] := by
  rw [List.all_eq_true, List.filter_eq_nil_iff]
  simp

theorem all_not_iff_filter_eq_nil (p : Node → Bool) (ns : List Node) :
    ns.all (!p ·) ↔ ns.filter p = [] := by
  rw [List.all_eq_true, List.filter_eq_nil_iff]
  simp

end Node

namespace Outline

variable {o : Outline}

/-- The outline with a node in some surroundings, and with another numbering of slots. -/
def place (o : Outline) (frames : List NodeFrame) (n : Node) (slots : Slots) : Outline :=
  { o with root := .plug frames n, slots }

@[simp] theorem root_place (frames : List NodeFrame) (n : Node) (slots : Slots) :
    (o.place frames n slots).root = .plug frames n := rfl

@[simp] theorem nextListener_place (frames : List NodeFrame) (n : Node) (slots : Slots) :
    (o.place frames n slots).nextListener = o.nextListener := rfl

/-- The children of a parent after children of one of its blocks have moved in front of it. -/
theorem liftedFrom_siblings (candidates : List NodeId) {frame : NodeFrame} {frames : List NodeFrame}
    {head : Head} {children : List Node}
    (h : (Node.plug (frame :: frames) (.block head children)).ids.Nodup) :
    liftedFrom head.id candidates (frame.before ++ .block head children :: frame.after) =
      let kept := children.filter (!candidates.contains ·.id)
      frame.before ++ children.filter (candidates.contains ·.id) ++
        (if kept.isEmpty then [] else [Node.block head kept]) ++ frame.after := by
  have hsame : ∀ ns : List Node, (∀ c ∈ ns, c.id ≠ head.id) →
      liftedFrom head.id candidates ns = ns := by
    intro ns hns
    induction ns with
    | nil => rfl
    | cons c cs ih =>
      rw [liftedFrom, List.flatMap_cons, if_neg (hns c List.mem_cons_self)]
      exact congrArg (c :: ·) (ih fun c hc => hns c (List.mem_cons_of_mem _ hc))
  have hbefore := hsame frame.before fun c hc => Node.sibling_ne h (List.mem_append_left _ hc)
  have hafter := hsame frame.after fun c hc => Node.sibling_ne h (List.mem_append_right _ hc)
  rw [liftedFrom] at hbefore hafter
  rw [liftedFrom, List.flatMap_append, List.flatMap_cons, hbefore, hafter, Node.id_block,
    if_pos rfl, List.append_assoc, List.append_assoc]
  simp only [Node.children, Node.withChildren, List.append_assoc]
  rfl

/-! ### Questions about a node in its surroundings -/

/-- A name with a node is found. -/
theorem find?_of_node {id : NodeId} {n : Node} (h : o.node id = .ok n) :
    o.root.find? id = some n := by
  rw [node] at h
  cases hn : o.root.find? id with
  | none => rw [hn] at h; cases h
  | some m => rw [hn] at h; cases h; rfl

section Plug

variable (hnodup : o.root.ids.Nodup) {frame : NodeFrame} {frames : List NodeFrame} {n : Node}
  {head : Head} {children : List Node} {content : Leaf}

include hnodup

theorem exists_plug_of_node {id : NodeId} (hn : o.node id = .ok n) :
    ∃ frames, o.root = .plug frames n ∧ n.id = id :=
  Node.exists_plug_of_find? hnodup (find?_of_node hn)

theorem exists_plug_of_children {id : NodeId} (h : o.children id = .ok children) :
    ∃ frames head, o.root = .plug frames (.block head children) ∧ head.id = id := by
  rw [Outline.children] at h
  cases hn : o.node id with
  | error e =>
    rw [hn] at h
    cases h
  | ok n =>
    obtain ⟨frames, hroot, hid⟩ := exists_plug_of_node hnodup hn
    rw [hn] at h
    cases n with
    | leaf head content => cases h
    | block head children =>
      cases h
      exact ⟨frames, head, hroot, hid⟩

theorem exists_plug_of_content {id : NodeId} (h : o.content id = .ok content) :
    ∃ frames head, o.root = .plug frames (.leaf head content) ∧ head.id = id := by
  rw [Outline.content] at h
  cases hn : o.node id with
  | error e =>
    rw [hn] at h
    cases h
  | ok n =>
    obtain ⟨frames, hroot, hid⟩ := exists_plug_of_node hnodup hn
    rw [hn] at h
    cases n with
    | leaf head content =>
      cases h
      exact ⟨frames, head, hroot, hid⟩
    | block head children => cases h

theorem node_plug (hroot : o.root = .plug frames n) : o.node n.id = .ok n := by
  rw [hroot] at hnodup
  rw [node, hroot, Node.find?_plug_self hnodup]

theorem children_plug (hroot : o.root = .plug frames (.block head children)) :
    o.children head.id = .ok children := by
  rw [Outline.children, show o.node head.id = _ from node_plug hnodup hroot]

theorem modify_plug (hroot : o.root = .plug frames n) (slots : Slots) (f : Node → Node) :
    ({ o with slots } : Outline).modify n.id f = o.place frames (f n) slots := by
  rw [hroot] at hnodup
  rw [modify, place]
  simp only [hroot, Node.update_plug_self hnodup]

theorem parent?_plug (hroot : o.root = .plug frames n) :
    o.root.parent? n.id = frames.head?.map (·.head.id) := by
  rw [hroot] at hnodup ⊢
  exact Node.parent?_plug_self hnodup

/-! ### Edits of a node in its surroundings -/

theorem add_plug {c : Condition} {slots : Slots}
    (hroot : o.root = .plug frames (.block head children))
    (hplant : Node.plant o.slots c = (n, slots)) :
    o.add head.id c = .ok ((o.place frames (.block head (children ++ [n])) slots).changed n.id n.id
      ⟨n.id, .added⟩) := by
  have hmodify := modify_plug hnodup hroot slots (Node.withChildren (· ++ [n]))
  rw [add, children_plug hnodup hroot, hplant]
  exact congrArg (fun p => Except.ok (p.changed n.id n.id ⟨n.id, .added⟩)) hmodify

theorem remove_plug (hroot : o.root = .plug (frame :: frames) n) :
    o.remove n.id = .ok ((o.place frames (.block frame.head (frame.before ++ frame.after))
      (o.slots.giveBackAll n.ids)).changed n.toCondition frame.head.id ⟨n.id, .removed⟩) := by
  have hsiblings := hroot ▸ hnodup
  have hne : n.id ≠ o.root.id := hroot ▸ Node.id_ne_plug hsiblings
  have hmodify := modify_plug (n := frame.attach n) hnodup hroot (o.slots.giveBackAll n.ids)
    (Node.withChildren (·.filter (·.id != n.id)))
  rw [NodeFrame.attach, Node.withChildren, Node.filter_siblings hsiblings] at hmodify
  rw [remove, if_neg hne, node_plug hnodup hroot, parent?_plug hnodup hroot]
  exact congrArg (fun p => Except.ok (p.changed n.toCondition frame.head.id ⟨n.id, .removed⟩))
    hmodify

theorem clear_plug (hroot : o.root = .plug frames (.block head children)) :
    o.clear head.id = .ok ((o.place frames (.block head [])
      (o.slots.giveBackAll (children.flatMap Node.ids))).changed () head.id
      ⟨head.id, .cleared⟩) := by
  have hmodify := modify_plug hnodup hroot (o.slots.giveBackAll (children.flatMap Node.ids))
    (Node.withChildren fun _ => [])
  rw [clear, children_plug hnodup hroot]
  exact congrArg (fun p => Except.ok (p.changed () head.id ⟨head.id, .cleared⟩)) hmodify

theorem group_plug {candidates : List NodeId} {first second : Node} {others : List Node}
    {id : NodeId} {slots : Slots} (hroot : o.root = .plug frames (.block head children))
    (hmatched : children.filter (candidates.contains ·.id) = first :: second :: others)
    (htake : o.slots.take = (id, slots)) :
    o.group head.id candidates = .ok ((o.place frames (.block head
      (children.filter (!candidates.contains ·.id) ++
        [.block ⟨id, first.head.logical, none, []⟩ (first :: second :: others)])) slots).changed
      (some id) id ⟨id, .grouped⟩) := by
  have hmodify := modify_plug hnodup hroot slots (Node.withChildren fun siblings =>
    siblings.filter (!candidates.contains ·.id) ++
      [.block ⟨id, first.head.logical, none, []⟩ (first :: second :: others)])
  rw [Outline.group, children_plug hnodup hroot]
  simp only [hmatched, htake]
  exact congrArg (fun p => Except.ok (p.changed (some id) id ⟨id, .grouped⟩)) hmodify

/-- A block that loses all its children is left out. -/
theorem ungroup_plug_emptied {candidates : List NodeId}
    (hroot : o.root = .plug (frame :: frames) (.block head children)) (hsome : children ≠ [])
    (hall : children.all (candidates.contains ·.id)) :
    o.ungroup head.id candidates = .ok ((o.place frames
      (.block frame.head (frame.before ++ children ++ frame.after))
      (o.slots.giveBack head.id)).changed true frame.head.id ⟨head.id, .ungrouped⟩) := by
  have hmoved : children.filter (candidates.contains ·.id) = children :=
    List.filter_eq_self.mpr (List.all_eq_true.mp hall)
  have hkept : children.filter (!candidates.contains ·.id) = [] :=
    (Node.all_iff_filter_eq_nil _ _).mp hall
  have hnone : ¬ children.all (!candidates.contains ·.id) := by
    rw [Node.all_not_iff_filter_eq_nil, hmoved]
    exact hsome
  have hlifted := liftedFrom_siblings candidates (hroot ▸ hnodup)
  simp only [hmoved, hkept, List.isEmpty_nil, if_true, List.append_nil] at hlifted
  have hmodify := modify_plug (n := frame.attach (.block head children)) hnodup hroot
    (o.slots.giveBack head.id) (Node.withChildren (liftedFrom head.id candidates))
  rw [NodeFrame.attach, Node.withChildren, hlifted] at hmodify
  have hparent : o.root.parent? head.id = some frame.head.id := parent?_plug hnodup hroot
  rw [ungroup, children_plug hnodup hroot]
  simp only [hparent, if_neg hnone, if_pos hall]
  exact congrArg (fun p => Except.ok (p.changed true frame.head.id ⟨head.id, .ungrouped⟩)) hmodify

/-- A block that keeps children stays behind those that it loses. -/
theorem ungroup_plug_kept {candidates : List NodeId} {moved kept : List Node}
    (hroot : o.root = .plug (frame :: frames) (.block head children))
    (hmoved : children.filter (candidates.contains ·.id) = moved)
    (hkept : children.filter (!candidates.contains ·.id) = kept) (hsome : moved ≠ [])
    (hrest : kept ≠ []) :
    o.ungroup head.id candidates = .ok ((o.place
      (⟨frame.head, frame.before ++ moved, frame.after⟩ :: frames) (.block head kept)
      o.slots).changed true head.id ⟨head.id, .ungrouped⟩) := by
  have hnone : ¬ children.all (!candidates.contains ·.id) := by
    rw [Node.all_not_iff_filter_eq_nil, hmoved]
    exact hsome
  have hall : ¬ children.all (candidates.contains ·.id) := by
    rw [Node.all_iff_filter_eq_nil, hkept]
    exact hrest
  have hlifted := liftedFrom_siblings candidates (hroot ▸ hnodup)
  simp only [hmoved, hkept, List.isEmpty_eq_false_iff.mpr hrest, Bool.false_eq_true, if_false,
    List.append_assoc, List.singleton_append] at hlifted
  rw [← List.append_assoc] at hlifted
  have hmodify := modify_plug (n := frame.attach (.block head children)) hnodup hroot
    o.slots (Node.withChildren (liftedFrom head.id candidates))
  rw [NodeFrame.attach, Node.withChildren, hlifted] at hmodify
  have hparent : o.root.parent? head.id = some frame.head.id := parent?_plug hnodup hroot
  rw [ungroup, children_plug hnodup hroot]
  simp only [hparent, if_neg hnone, if_neg hall]
  exact congrArg (fun p => Except.ok (p.changed true head.id ⟨head.id, .ungrouped⟩)) hmodify

theorem setContent_plug (hroot : o.root = .plug frames (.leaf head content)) (change : Change)
    (after : Leaf) :
    o.setContent head.id change after =
      (o.place frames (.leaf head after) o.slots).changed () head.id ⟨head.id, change⟩ := by
  have hmodify := modify_plug hnodup hroot o.slots (Node.withContent fun _ => after)
  exact congrArg (fun p => Outline.changed p () head.id ⟨head.id, change⟩) hmodify

end Plug

end Outline

end EntityQuery
