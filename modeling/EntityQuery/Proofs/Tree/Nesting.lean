import EntityQuery.Condition.Outline
import Mathlib.Data.List.Perm.Basic
import Mathlib.Data.List.Nodup

/-!
# Nodes in their surroundings

A node inside another one is given by the frames around it, from the innermost one outwards: the
block above it with the siblings before and after it.

* `Node.nested` — induction on nodes, with the hypothesis for every child of a block.
* `NodeFrame`, `Node.plug` — a node put into its surroundings.
* `Node.exists_plug`, `Node.exists_plug_of_find?` — every name below a node is the name of a node in
  some surroundings, and found there.
* `Node.update_plug`, `Node.touch_plug`, `Node.lineage_plug`, `Node.find?_plug` — what a change or a
  question by name does there, if the name does not occur in the surroundings.
-/

namespace EntityQuery

namespace Node

/-- Induction on nodes, with the hypothesis for every child of a block. -/
theorem nested {motive : Node → Prop} (leaf : ∀ head content, motive (.leaf head content))
    (block : ∀ head children, (∀ c ∈ children, motive c) → motive (.block head children))
    (n : Node) : motive n := by
  refine @Node.rec motive (fun ns => ∀ c ∈ ns, motive c) leaf block ?_ ?_ n
  · intro c hc
    cases hc
  · intro first others hfirst hothers c hc
    rcases List.mem_cons.mp hc with rfl | hc
    · exact hfirst
    · exact hothers c hc

/-! ### Lists of nodes -/

theorem allToList_eq_flatMap (ns : List Node) : allToList ns = ns.flatMap toList := by
  induction ns with
  | nil => rfl
  | cons n ns ih => rw [allToList, ih, List.flatMap_cons]

theorem allToCondition_eq_map (ns : List Node) : allToCondition ns = ns.map toCondition := by
  induction ns with
  | nil => rfl
  | cons n ns ih => rw [allToCondition, ih, List.map_cons]

theorem updateAll_eq_map (id : NodeId) (f : Node → Node) (ns : List Node) :
    updateAll id f ns = ns.map (update id f) := by
  induction ns with
  | nil => rfl
  | cons n ns ih => rw [updateAll, ih, List.map_cons]

theorem touchAll_eq_map (id : NodeId) (ns : List Node) : touchAll id ns = ns.map (touch id) := by
  induction ns with
  | nil => rfl
  | cons n ns ih => rw [touchAll, ih, List.map_cons]

/-! ### Names -/

@[simp] theorem id_leaf (head : Head) (content : Leaf) : (leaf head content).id = head.id := rfl

@[simp] theorem id_block (head : Head) (children : List Node) :
    (block head children).id = head.id := rfl

@[simp] theorem ids_leaf (head : Head) (content : Leaf) : (leaf head content).ids = [head.id] := by
  simp [ids, toList]

@[simp] theorem ids_block (head : Head) (children : List Node) :
    (block head children).ids = head.id :: children.flatMap ids := by
  simp only [ids, toList, allToList_eq_flatMap, List.map_cons, List.map_flatMap]
  rfl

@[simp] theorem head_withHead (f : Head → Head) (n : Node) : (n.withHead f).head = f n.head := by
  cases n <;> rfl

@[simp] theorem children_withHead (f : Head → Head) (n : Node) :
    (n.withHead f).children = n.children := by
  cases n <;> rfl

/-- A node is named by its own name. -/
theorem id_mem_ids (n : Node) : n.id ∈ n.ids := by
  cases n <;> simp

/-- A child's name is one of those of its block. -/
theorem id_mem_ids_of_child {n c : Node} (hc : c ∈ n.children) : c.id ∈ n.ids := by
  cases n with
  | leaf head content => cases hc
  | block head children =>
    rw [ids_block]
    exact List.mem_cons_of_mem _ (List.mem_flatMap_of_mem hc c.id_mem_ids)

/-- A name below one of the nodes is found in the list of their names. -/
theorem not_mem_ids_of_mem {ns : List Node} {n : Node} {id : NodeId} (hn : n ∈ ns)
    (h : id ∉ ns.flatMap ids) : id ∉ n.ids :=
  fun hid => h (List.mem_flatMap_of_mem hn hid)

/-- A node has no more names below it than all its siblings together. -/
theorem length_ids_le {children : List Node} {c : Node} (hc : c ∈ children) :
    c.ids.length ≤ (children.flatMap ids).length := by
  obtain ⟨before, after, rfl⟩ := List.append_of_mem hc
  simp only [List.flatMap_append, List.flatMap_cons, List.length_append]
  omega

/-- A child has fewer names below it than its block. -/
theorem length_ids_lt (head : Head) {children : List Node} {c : Node} (hc : c ∈ children) :
    c.ids.length < (block head children).ids.length := by
  rw [ids_block, List.length_cons]
  exact Nat.lt_succ_of_le (length_ids_le hc)

/-- A change of another name leaves a node as it is. -/
theorem update_of_not_mem {id : NodeId} {f : Node → Node} {n : Node} (h : id ∉ n.ids) :
    n.update id f = n := by
  induction n using nested with
  | leaf head content =>
    rw [ids_leaf, List.mem_singleton] at h
    rw [update, if_neg (Ne.symm h)]
  | block head children ih =>
    rw [ids_block, List.mem_cons, not_or] at h
    rw [update, if_neg (Ne.symm h.1), updateAll_eq_map]
    congr 1
    conv_rhs => rw [← List.map_id children]
    exact List.map_congr_left fun c hc => ih c hc (not_mem_ids_of_mem hc h.2)

/-- Forgetting at another name leaves a node as it is. -/
theorem touch_of_not_mem {id : NodeId} {n : Node} (h : id ∉ n.ids) : n.touch id = n := by
  cases n with
  | leaf head content =>
    rw [ids_leaf, List.mem_singleton] at h
    rw [touch, if_neg (Ne.symm h)]
  | block head children =>
    rw [ids_block, List.mem_cons, not_or] at h
    have absent : (allToList children).any (·.id == id) = false := by
      rw [List.any_eq_false]
      intro m hm heq
      refine h.2 ?_
      rw [allToList_eq_flatMap] at hm
      obtain ⟨c, hc, hm⟩ := List.mem_flatMap.mp hm
      exact List.mem_flatMap.mpr ⟨c, hc, List.mem_map.mpr ⟨m, hm, beq_iff_eq.mp heq⟩⟩
    rw [touch, if_neg (Ne.symm h.1), if_neg (by rw [absent]; exact Bool.false_ne_true)]

/-- A node without a name has no lineage of it. -/
theorem lineage_of_not_mem {id : NodeId} {n : Node} (h : id ∉ n.ids) : n.lineage id = [] := by
  induction n using nested with
  | leaf head content =>
    rw [ids_leaf, List.mem_singleton] at h
    rw [lineage, if_neg (Ne.symm h)]
  | block head children ih =>
    rw [ids_block, List.mem_cons, not_or] at h
    have none_below : lineageAmong id children = [] := by
      have hchildren : ∀ c ∈ children, c.lineage id = [] :=
        fun c hc => ih c hc (not_mem_ids_of_mem hc h.2)
      clear ih h
      induction children with
      | nil => rfl
      | cons c cs ih =>
        rw [lineageAmong, hchildren c List.mem_cons_self]
        exact ih fun c hc => hchildren c (List.mem_cons_of_mem _ hc)
    rw [lineage, if_neg (Ne.symm h.1), none_below]

end Node

/-! ### Surroundings -/

/-- A block around a node: its head, and the siblings before and after the node. -/
structure NodeFrame where
  head : Head
  before : List Node
  after : List Node

namespace NodeFrame

/-- The block with a node in its place. -/
def attach (frame : NodeFrame) (n : Node) : Node :=
  .block frame.head (frame.before ++ n :: frame.after)

/-- The names of the block and of the siblings. -/
def ids (frame : NodeFrame) : List NodeId :=
  frame.head.id :: (frame.before ++ frame.after).flatMap Node.ids

/-- The frame without a remembered expression. -/
def uncached (frame : NodeFrame) : NodeFrame := { frame with head := frame.head.uncached }

@[simp] theorem id_attach (frame : NodeFrame) (n : Node) : (frame.attach n).id = frame.head.id :=
  rfl

/-- The children of the block with a node in its place. -/
theorem mem_children_attach (frame : NodeFrame) {n c : Node} :
    c ∈ (frame.attach n).children ↔ c = n ∨ c ∈ frame.before ++ frame.after := by
  rw [attach, Node.children, List.mem_append, List.mem_cons, List.mem_append]
  tauto

/-- A block with a node in its place has the names of both. -/
theorem ids_attach_perm (frame : NodeFrame) (n : Node) :
    (frame.attach n).ids.Perm (frame.ids ++ n.ids) := by
  rw [attach, Node.ids_block, ids, List.flatMap_append, List.flatMap_cons, List.cons_append]
  refine List.Perm.cons _ ?_
  rw [List.flatMap_append, List.append_assoc]
  exact List.Perm.append_left _ List.perm_append_comm

/-- A name outside the frame is that of the block with a node exactly if it is below the node. -/
theorem mem_ids_attach {frame : NodeFrame} {n : Node} {id : NodeId} (h : id ∉ frame.ids) :
    id ∈ (frame.attach n).ids ↔ id ∈ n.ids := by
  rw [(frame.ids_attach_perm n).mem_iff, List.mem_append, or_iff_right h]

end NodeFrame

namespace Node

/-- A node put into its surroundings, from the innermost frame outwards. -/
def plug : List NodeFrame → Node → Node
  | [], n => n
  | frame :: frames, n => plug frames (frame.attach n)

/-- The names in the surroundings of a node. -/
def frameIds (frames : List NodeFrame) : List NodeId := frames.flatMap NodeFrame.ids

@[simp] theorem frameIds_cons (frame : NodeFrame) (frames : List NodeFrame) :
    frameIds (frame :: frames) = frame.ids ++ frameIds frames := rfl

theorem plug_append (inner outer : List NodeFrame) (n : Node) :
    plug (inner ++ outer) n = plug outer (plug inner n) := by
  induction inner generalizing n with
  | nil => rfl
  | cons frame inner ih => exact ih (frame.attach n)

/-- A node in its surroundings has the names of both. -/
theorem ids_plug_perm (frames : List NodeFrame) (n : Node) :
    (plug frames n).ids.Perm (frameIds frames ++ n.ids) := by
  induction frames generalizing n with
  | nil => exact List.Perm.refl _
  | cons frame frames ih =>
    have swap : (frameIds frames ++ (frame.ids ++ n.ids)).Perm
        (frameIds (frame :: frames) ++ n.ids) := by
      rw [← List.append_assoc]
      exact List.Perm.append_right _ List.perm_append_comm
    exact ((ih _).trans (List.Perm.append_left _ (frame.ids_attach_perm n))).trans swap

/-- A name below a node in its surroundings is one of those of the whole. -/
theorem mem_ids_plug (frames : List NodeFrame) {n : Node} {id : NodeId} (hid : id ∈ n.ids) :
    id ∈ (plug frames n).ids :=
  (ids_plug_perm frames n).mem_iff.mpr (List.mem_append_right _ hid)

theorem id_plug (frames : List NodeFrame) {m n : Node} (hid : m.id = n.id) :
    (plug frames m).id = (plug frames n).id := by
  induction frames generalizing m n with
  | nil => exact hid
  | cons frame frames ih => exact ih rfl

theorem isBlock_plug (frames : List NodeFrame) {m n : Node} (hblock : m.isBlock = n.isBlock) :
    (plug frames m).isBlock = (plug frames n).isBlock := by
  induction frames generalizing m n with
  | nil => exact hblock
  | cons frame frames ih => exact ih rfl

theorem length_le_ids_plug (frames : List NodeFrame) (n : Node) :
    frames.length < (plug frames n).ids.length := by
  have hframes : frames.length ≤ (frameIds frames).length := by
    induction frames with
    | nil => exact Nat.le_refl 0
    | cons frame frames ih =>
      simp only [frameIds_cons, NodeFrame.ids, List.cons_append, List.length_cons,
        List.length_append]
      omega
  have hn : 0 < n.ids.length := List.length_pos_of_mem n.id_mem_ids
  rw [(ids_plug_perm frames n).length_eq, List.length_append]
  omega

/-- Every name below a node is the name of a node in some surroundings. -/
theorem exists_plug {id : NodeId} {n : Node} (h : id ∈ n.ids) :
    ∃ frames m, n = plug frames m ∧ m.id = id := by
  induction n using nested with
  | leaf head content =>
    rw [ids_leaf, List.mem_singleton] at h
    exact ⟨[], .leaf head content, rfl, h.symm⟩
  | block head children ih =>
    by_cases hid : head.id = id
    · exact ⟨[], .block head children, rfl, hid⟩
    rw [ids_block, List.mem_cons, or_iff_right (Ne.symm hid)] at h
    obtain ⟨c, hc, hmem⟩ := List.mem_flatMap.mp h
    obtain ⟨before, after, rfl⟩ := List.append_of_mem hc
    obtain ⟨frames, m, rfl, hm⟩ := ih c hc hmem
    let frame : NodeFrame := ⟨head, before, after⟩
    exact ⟨frames ++ [frame], m, (plug_append frames [frame] m).symm, hm⟩

/-- The names in the surroundings of a node differ from those below it. -/
theorem not_mem_frameIds {frames : List NodeFrame} {n : Node} (h : (plug frames n).ids.Nodup)
    {id : NodeId} (hid : id ∈ n.ids) : id ∉ frameIds frames := by
  have := ((ids_plug_perm frames n).nodup_iff).mp h
  exact fun hframes => (List.nodup_append.mp this).2.2 id hframes id hid rfl

/-- A node has a name of its own among its siblings. -/
theorem sibling_ne {frame : NodeFrame} {frames : List NodeFrame} {n : Node}
    (h : (plug (frame :: frames) n).ids.Nodup) {c : Node} (hc : c ∈ frame.before ++ frame.after) :
    c.id ≠ n.id := by
  have hframe := not_mem_frameIds h n.id_mem_ids
  rw [frameIds_cons, List.mem_append, not_or, NodeFrame.ids, List.mem_cons, not_or] at hframe
  exact fun heq => hframe.1.2 (List.mem_flatMap.mpr ⟨c, hc, heq ▸ c.id_mem_ids⟩)

/-- The siblings of a node are the children of its block that are not named like it. -/
theorem filter_siblings {frame : NodeFrame} {frames : List NodeFrame} {n : Node}
    (h : (plug (frame :: frames) n).ids.Nodup) :
    (frame.before ++ n :: frame.after).filter (·.id != n.id) = frame.before ++ frame.after := by
  have hkept : (frame.before ++ frame.after).filter (·.id != n.id) = frame.before ++ frame.after :=
    List.filter_eq_self.mpr fun c hc => bne_iff_ne.mpr (sibling_ne h hc)
  rw [List.filter_append] at hkept
  rw [List.filter_append, List.filter_cons_of_neg (by simp), hkept]

/-! ### Questions and changes by name -/

theorem update_self {n : Node} (f : Node → Node) : n.update n.id f = f n := by
  cases n <;> simp [update]

theorem update_plug {frames : List NodeFrame} {id : NodeId} (f : Node → Node)
    (h : id ∉ frameIds frames) (n : Node) :
    (plug frames n).update id f = plug frames (n.update id f) := by
  induction frames generalizing n with
  | nil => rfl
  | cons frame frames ih =>
    rw [frameIds_cons, List.mem_append, not_or] at h
    have hframe := h.1
    rw [NodeFrame.ids, List.mem_cons, not_or, List.flatMap_append, List.mem_append,
      not_or] at hframe
    have kept : ∀ ns : List Node, id ∉ ns.flatMap ids → ns.map (update id f) = ns := by
      intro ns hns
      conv_rhs => rw [← List.map_id ns]
      exact List.map_congr_left fun c hc => update_of_not_mem (not_mem_ids_of_mem hc hns)
    show (plug frames (frame.attach n)).update id f = plug frames (frame.attach (n.update id f))
    rw [ih h.2, NodeFrame.attach, update, if_neg (Ne.symm hframe.1), updateAll_eq_map,
      List.map_append, List.map_cons, kept _ hframe.2.1, kept _ hframe.2.2, NodeFrame.attach]

/-- The node of a name, changed in its surroundings. -/
theorem update_plug_self {frames : List NodeFrame} {n : Node} (h : (plug frames n).ids.Nodup)
    (f : Node → Node) : (plug frames n).update n.id f = plug frames (f n) := by
  rw [update_plug f (not_mem_frameIds h n.id_mem_ids), update_self]

theorem touch_self (n : Node) : n.touch n.id = n.withHead Head.uncached := by
  cases n <;> simp [touch, withHead]

/-- A node keeps its name when it is forgotten. -/
theorem id_touch (id : NodeId) (n : Node) : (n.touch id).id = n.id := by
  cases n <;> rw [touch] <;> split_ifs <;> rfl

theorem isBlock_touch (id : NodeId) (n : Node) : (n.touch id).isBlock = n.isBlock := by
  cases n <;> rw [touch] <;> split_ifs <;> rfl

/-- The names of a node do not change when expressions are forgotten. -/
theorem ids_touch (start : NodeId) (n : Node) : (n.touch start).ids = n.ids := by
  induction n using nested with
  | leaf head content =>
    rw [touch]
    split_ifs <;> rfl
  | block head children ih =>
    rw [touch]
    split_ifs
    · rfl
    · rw [touchAll_eq_map, ids_block, ids_block, List.flatMap_map]
      exact congrArg (head.id :: ·) (List.flatMap_congr ih)
    · rfl

theorem touch_attach {frame : NodeFrame} {id : NodeId} {n : Node} (hframe : id ∉ frame.ids)
    (hn : id ∈ n.ids) : (frame.attach n).touch id = frame.uncached.attach (n.touch id) := by
  rw [NodeFrame.ids, List.mem_cons, not_or, List.flatMap_append, List.mem_append, not_or] at hframe
  have kept : ∀ ns : List Node, id ∉ ns.flatMap ids → ns.map (touch id) = ns := by
    intro ns hns
    conv_rhs => rw [← List.map_id ns]
    exact List.map_congr_left fun c hc => touch_of_not_mem (not_mem_ids_of_mem hc hns)
  have present : (allToList (frame.before ++ n :: frame.after)).any (·.id == id) = true := by
    obtain ⟨m, hm, hid⟩ := List.mem_map.mp hn
    rw [List.any_eq_true]
    refine ⟨m, ?_, beq_iff_eq.mpr hid⟩
    rw [allToList_eq_flatMap]
    exact List.mem_flatMap_of_mem (List.mem_append_right _ List.mem_cons_self) hm
  rw [NodeFrame.attach, touch, if_neg (Ne.symm hframe.1), if_pos present, touchAll_eq_map,
    List.map_append, List.map_cons, kept _ hframe.2.1, kept _ hframe.2.2]
  rfl

theorem touch_plug {frames : List NodeFrame} {id : NodeId} {n : Node} (h : id ∉ frameIds frames)
    (hn : id ∈ n.ids) :
    (plug frames n).touch id = plug (frames.map NodeFrame.uncached) (n.touch id) := by
  induction frames generalizing n with
  | nil => rfl
  | cons frame frames ih =>
    rw [frameIds_cons, List.mem_append, not_or] at h
    show (plug frames (frame.attach n)).touch id
      = plug (frames.map NodeFrame.uncached) (frame.uncached.attach (n.touch id))
    rw [ih h.2 ((NodeFrame.mem_ids_attach h.1).mpr hn), touch_attach h.1 hn]

/-- Forgetting at a node forgets the node's own expression and those of the blocks around it. -/
theorem touch_plug_self {frames : List NodeFrame} {n : Node} (h : (plug frames n).ids.Nodup) :
    (plug frames n).touch n.id =
      plug (frames.map NodeFrame.uncached) (n.withHead Head.uncached) := by
  rw [touch_plug (not_mem_frameIds h n.id_mem_ids) n.id_mem_ids, touch_self]

theorem lineage_self (n : Node) : n.lineage n.id = [n.head] := by
  cases n <;> simp [lineage, head]

theorem lineageAmong_append {id : NodeId} {n : Node} {before after : List Node}
    (hbefore : id ∉ before.flatMap ids) (hn : n.lineage id ≠ []) :
    lineageAmong id (before ++ n :: after) = n.lineage id := by
  induction before with
  | nil =>
    rw [List.nil_append, lineageAmong]
    split
    · next h => exact absurd h hn
    · rfl
  | cons m before ih =>
    rw [List.flatMap_cons, List.mem_append, not_or] at hbefore
    rw [List.cons_append, lineageAmong, lineage_of_not_mem hbefore.1]
    exact ih hbefore.2

theorem lineage_attach {frame : NodeFrame} {id : NodeId} {n : Node} (hframe : id ∉ frame.ids)
    (hn : n.lineage id ≠ []) : (frame.attach n).lineage id = n.lineage id ++ [frame.head] := by
  rw [NodeFrame.ids, List.mem_cons, not_or, List.flatMap_append, List.mem_append, not_or] at hframe
  rw [NodeFrame.attach, lineage, if_neg (Ne.symm hframe.1), lineageAmong_append hframe.2.1 hn]
  split
  · next h => exact absurd h hn
  · rfl

theorem lineage_plug {frames : List NodeFrame} {id : NodeId} {n : Node} (h : id ∉ frameIds frames)
    (hn : n.lineage id ≠ []) :
    (plug frames n).lineage id = n.lineage id ++ frames.map (·.head) := by
  induction frames generalizing n with
  | nil => rw [List.map_nil, List.append_nil, plug]
  | cons frame frames ih =>
    rw [frameIds_cons, List.mem_append, not_or] at h
    have hattach := lineage_attach h.1 hn
    rw [plug, ih h.2 (by rw [hattach]; simp), hattach, List.map_cons, List.append_assoc,
      List.singleton_append]

/-- The lineage of a node goes through the blocks around it. -/
theorem lineage_plug_self {frames : List NodeFrame} {n : Node} (h : (plug frames n).ids.Nodup) :
    (plug frames n).lineage n.id = n.head :: frames.map (·.head) := by
  rw [lineage_plug (not_mem_frameIds h n.id_mem_ids) (by rw [lineage_self]; simp), lineage_self,
    List.singleton_append]

/-- The block above a node is the innermost one around it. -/
theorem parent?_plug_self {frames : List NodeFrame} {n : Node} (h : (plug frames n).ids.Nodup) :
    (plug frames n).parent? n.id = frames.head?.map (·.head.id) := by
  rw [parent?, lineage_plug_self h]
  cases frames <;> rfl

theorem find?_eq_none {id : NodeId} {n : Node} : n.find? id = none ↔ id ∉ n.ids := by
  simp [find?, ids, List.find?_eq_none]

theorem find?_attach {frame : NodeFrame} {id : NodeId} {n : Node} (hframe : id ∉ frame.ids)
    (hn : id ∈ n.ids) : (frame.attach n).find? id = n.find? id := by
  rw [NodeFrame.ids, List.mem_cons, not_or, List.flatMap_append, List.mem_append, not_or] at hframe
  have hbefore : (frame.before.flatMap toList).find? (·.id == id) = none := by
    rw [List.find?_eq_none]
    intro m hm heq
    obtain ⟨c, hc, hm⟩ := List.mem_flatMap.mp hm
    exact hframe.2.1 (List.mem_flatMap.mpr ⟨c, hc, List.mem_map.mpr ⟨m, hm, beq_iff_eq.mp heq⟩⟩)
  have hfound : n.toList.find? (·.id == id) ≠ none := fun hnone => find?_eq_none.mp hnone hn
  obtain ⟨m, hm⟩ := Option.ne_none_iff_exists'.mp hfound
  rw [find?, NodeFrame.attach, toList, allToList_eq_flatMap, List.find?_cons_of_neg,
    List.flatMap_append, List.flatMap_cons, List.find?_append, hbefore, Option.none_or,
    List.find?_append, hm, Option.some_or, find?, hm]
  exact fun heq => hframe.1 (beq_iff_eq.mp heq).symm

theorem find?_plug {frames : List NodeFrame} {id : NodeId} {n : Node} (h : id ∉ frameIds frames)
    (hn : id ∈ n.ids) : (plug frames n).find? id = n.find? id := by
  induction frames generalizing n with
  | nil => rfl
  | cons frame frames ih =>
    rw [frameIds_cons, List.mem_append, not_or] at h
    rw [plug, ih h.2 ((NodeFrame.mem_ids_attach h.1).mpr hn), find?_attach h.1 hn]

/-- A node is found by its name. -/
theorem find?_self (n : Node) : n.find? n.id = some n := by
  cases n <;> simp [find?, toList]

theorem find?_plug_self {frames : List NodeFrame} {n : Node} (h : (plug frames n).ids.Nodup) :
    (plug frames n).find? n.id = some n := by
  rw [find?_plug (not_mem_frameIds h n.id_mem_ids) n.id_mem_ids, find?_self]

/-- A node in its surroundings is found by its name. -/
theorem exists_plug_of_find? {id : NodeId} {n m : Node} (hnodup : n.ids.Nodup)
    (h : n.find? id = some m) : ∃ frames, n = plug frames m ∧ m.id = id := by
  have hmem : id ∈ n.ids := by
    rw [← not_not (a := id ∈ n.ids), ← find?_eq_none, h]
    exact Option.some_ne_none m
  obtain ⟨frames, k, rfl, rfl⟩ := exists_plug hmem
  rw [find?_plug_self hnodup, Option.some.injEq] at h
  subst h
  exact ⟨frames, rfl, rfl⟩

/-- A node keeps its name and its logical operator when it is compiled. -/
theorem head_compile (n : Node) :
    n.compile.result.head = { n.head with cache := n.compile.result.head.cache } := by
  cases n <;> rw [compile] <;> split <;> rfl

end Node

end EntityQuery
