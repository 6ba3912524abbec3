import EntityQuery.Proofs.Tree.Coherent
import EntityQuery.Proofs.Tree.Inversion

/-!
# What an edit forgets

An edit that announces a change forgets the expressions from one node up to the root. All other
nodes are as they were, with all that they remember, or they are new and remember nothing. An edit
that announces nothing forgets nothing.

* `Node.head_plant` — planted nodes remember nothing, and nobody listens to them.
* `Node.mem_toList_touch` — what a walk upwards forgets, and what it leaves alone.
* `Outline.origin?` — the node from which an edit forgets upwards.
* `Outline.Silent`, `Outline.Differs`, `Outline.Clears` — an outline before and after an edit.
* `Outline.differs_added`, `Outline.differs_replaced`, `Outline.differs_grouped`,
  `Outline.differs_lifted` — where nodes come, go or move.
* `Outline.Step.silent_or_changed`, `Outline.Step.silent_or_clears` — every step is of one of these
  kinds.
-/

namespace EntityQuery

namespace Node

mutual

/-- A node that is planted remembers nothing, and nobody listens to it. -/
theorem head_plant (s : Slots) (c : Condition) :
    ∀ k ∈ (plant s c).1.toList, k.head.cache = none ∧ k.head.listeners = [] := by
  cases c with
  | leaf logical content => simp [plant, toList, head]
  | block logical children =>
    rw [plant, toList_block]
    intro k hk
    rcases List.mem_cons.mp hk with rfl | hk
    · exact ⟨rfl, rfl⟩
    · obtain ⟨c, hc, hk⟩ := List.mem_flatMap.mp hk
      exact head_plantAll _ children c hc k hk

theorem head_plantAll (s : Slots) (cs : List Condition) :
    ∀ n ∈ (plantAll s cs).1, ∀ k ∈ n.toList, k.head.cache = none ∧ k.head.listeners = [] := by
  cases cs with
  | nil => exact List.forall_mem_nil _
  | cons c cs =>
    rw [plantAll]
    exact List.forall_mem_cons.mpr ⟨head_plant s c, head_plantAll _ cs⟩

end

/-- A walk upwards forgets the expressions of the nodes that have its start below them, and leaves
the others alone. -/
theorem mem_toList_touch {n k : Node} {start : NodeId} (hnodup : n.ids.Nodup)
    (hk : k ∈ (n.touch start).toList) :
    start ∈ k.ids ∧ k.head.cache = none ∨ start ∉ k.ids ∧ k ∈ n.toList := by
  by_cases hstart : start ∈ n.ids
  · obtain ⟨frames, m, rfl, rfl⟩ := exists_plug hstart
    rw [touch_plug_self hnodup] at hk
    have hid : (m.withHead Head.uncached).id = m.id := by cases m <;> rfl
    rcases mem_toList_plug hk with hk | ⟨outer, houter, c, hc, hk⟩ | ⟨outer, houter, hhead, hids⟩
    · rcases mem_toList.mp hk with rfl | ⟨c, hc, hk⟩
      · exact Or.inl ⟨hid ▸ id_mem_ids _, by rw [head_withHead]; rfl⟩
      · rw [children_withHead] at hc
        have hm : m.ids.Nodup := ((ids_plug_perm frames m).nodup_iff.mp hnodup).of_append_right
        exact Or.inr ⟨fun hmem => not_mem_ids_child hm hc (ids_subset_of_mem hk hmem),
          mem_toList_plug_of_mem (mem_toList_of_child hc hk)⟩
    · obtain ⟨frame, hframe, rfl⟩ := List.mem_map.mp houter
      refine Or.inr ⟨fun hmem => ?_, mem_toList_plug_of_sibling hframe hc hk⟩
      refine not_mem_frameIds hnodup m.id_mem_ids (List.mem_flatMap_of_mem hframe ?_)
      exact List.mem_cons_of_mem _ (List.mem_flatMap_of_mem hc (ids_subset_of_mem hk hmem))
    · obtain ⟨frame, -, rfl⟩ := List.mem_map.mp houter
      exact Or.inl ⟨hids (hid ▸ id_mem_ids _), by rw [hhead]; rfl⟩
  · rw [touch_of_not_mem hstart] at hk
    exact Or.inr ⟨fun hmem => hstart (ids_subset_of_mem hk hmem), hk⟩

/-- Of a block that has a name below it, the other nodes without that name are those of its
children. -/
theorem forall_beyond_block {head : Head} {children : List Node} {start : NodeId}
    {motive : Node → Prop} (hblock : start ∈ (block head children).ids)
    (h : ∀ c ∈ children, ∀ k ∈ c.toList, start ∉ k.ids → motive k) :
    ∀ k ∈ (block head children).toList, start ∉ k.ids → motive k := by
  intro k hk hbeyond
  rcases mem_toList.mp hk with rfl | ⟨c, hc, hk⟩
  · exact absurd hblock hbeyond
  · exact h c hc k hk hbeyond

end Node

namespace Outline

variable {o p : Outline} {e : Edit} {x : Outcome EditAnswer}

/-- The node from which an edit forgets expressions upwards, and tells listeners: a new one, or that
from which it tells them. -/
def origin? (o : Outline) (x : Outcome EditAnswer) (e : Edit) : Option NodeId :=
  x.answer.created?.or (o.start? x.outline e)

/-- Two outlines with the same conditions: one node remembers more expressions, or has other
listeners. -/
def Silent (o p : Outline) : Prop :=
  ∃ frames m n, o.root = .plug frames m ∧ p.root = .plug frames n ∧ (n = m.compile.result ∨
    ∃ f : List Nat → List Nat, n = m.withHead fun head =>
      { head with listeners := f head.listeners })

theorem silent_refl (o : Outline) : o.Silent o := by
  refine ⟨[], o.root, o.root, rfl, rfl, Or.inr ⟨id, ?_⟩⟩
  cases o.root <;> rfl

/-- Two outlines that differ on the way from a node to the root. Every node beyond that is the same,
or it is new and remembers nothing. -/
structure Differs (o p : Outline) (start : NodeId) : Prop where
  mem : start ∈ p.root.ids
  beyond : ∀ k ∈ p.root.toList, start ∉ k.ids →
    k ∈ o.root.toList ∨ k.head.cache = none ∧ k.id ∉ o.root.ids

/-- On that way all expressions are forgotten. -/
structure Clears (o p : Outline) (start : NodeId) : Prop extends o.Differs p start where
  cleared : ∀ k ∈ p.root.toList, start ∈ k.ids → k.head.cache = none

/-- At the end of a change, the expressions are forgotten where the outlines differ. -/
theorem Differs.clears {α : Type} {start : NodeId} (h : o.Differs p start) {answer : α}
    {notice : Notice} (hafter : (p.changed answer start notice).outline.root.ids.Nodup) :
    o.Clears (p.changed answer start notice).outline start := by
  rw [changed, Node.ids_touch] at hafter
  refine ⟨⟨?_, ?_⟩, ?_⟩
  · rw [changed, Node.ids_touch]
    exact h.mem
  · intro k hk hbeyond
    rcases Node.mem_toList_touch hafter hk with ⟨hon, -⟩ | ⟨-, hk⟩
    · exact absurd hon hbeyond
    · exact h.beyond k hk hbeyond
  · intro k hk hon
    rcases Node.mem_toList_touch hafter hk with ⟨-, hcache⟩ | ⟨hbeyond, -⟩
    · exact hcache
    · exact absurd hon hbeyond

/-- Another node in the place of a node makes a difference around it and below it only. -/
theorem differs_place {frames : List NodeFrame} {m n : Node} {slots : Slots} {start : NodeId}
    (hroot : o.root = .plug frames m) (hstart : start ∈ n.ids)
    (h : ∀ k ∈ n.toList, start ∉ k.ids →
      k ∈ m.toList ∨ k.head.cache = none ∧ k.id ∉ o.root.ids) :
    o.Differs (o.place frames n slots) start where
  mem := Node.mem_ids_plug frames hstart
  beyond k hk hbeyond := by
    rcases Node.mem_toList_plug hk with hk | ⟨frame, hframe, c, hc, hk⟩ | ⟨-, -, -, hids⟩
    · refine (h k hk hbeyond).imp_left fun hm => ?_
      rw [hroot]
      exact Node.mem_toList_plug_of_mem hm
    · rw [hroot]
      exact Or.inl (Node.mem_toList_plug_of_sibling hframe hc hk)
    · exact absurd (hids hstart) hbeyond

/-- A planted node has none of the names from before. -/
theorem not_mem_ids_planted {frames : List NodeFrame} {head : Head} {children : List Node}
    {n k : Node} (hroot : o.root = .plug frames (.block head children))
    (hafter : (Node.plug frames (.block head (children ++ [n]))).ids.Nodup) (hk : k ∈ n.toList) :
    k.id ∉ o.root.ids := by
  have hplug : (Node.plug (⟨head, children, []⟩ :: frames) n).ids.Nodup := hafter
  have houter := Node.not_mem_frameIds hplug (Node.mem_ids_of_mem hk)
  rw [Node.frameIds_cons, NodeFrame.ids, List.append_nil, List.mem_append, not_or] at houter
  rw [hroot, (Node.ids_plug_perm _ _).mem_iff, Node.ids_block, List.mem_append, not_or]
  exact ⟨houter.2, houter.1⟩

section

variable {frame : NodeFrame} {frames : List NodeFrame} {head : Head} {children : List Node}
  {slots : Slots}

/-- A planted node remembers nothing, and the children in front of it are those from before. -/
theorem differs_added {c : Condition} {n : Node}
    (hroot : o.root = .plug frames (.block head children))
    (hplant : Node.plant o.slots c = (n, slots))
    (hafter : (Node.plug frames (.block head (children ++ [n]))).ids.Nodup) :
    o.Differs (o.place frames (.block head (children ++ [n])) slots) n.id := by
  have hmem : n ∈ children ++ [n] := List.mem_append_right _ List.mem_cons_self
  have hstart := Node.id_mem_ids_of_child (n := .block head (children ++ [n])) hmem
  refine differs_place hroot hstart (Node.forall_beyond_block hstart fun child hc k hk _ => ?_)
  rcases List.mem_append.mp hc with hc | hc
  · exact Or.inl (Node.mem_toList_of_child (n := .block head children) hc hk)
  · rw [List.mem_singleton] at hc
    subst hc
    have hplanted := Node.head_plant o.slots c
    rw [hplant] at hplanted
    exact Or.inr ⟨(hplanted k hk).1, not_mem_ids_planted hroot hafter hk⟩

/-- In place of a child, the block around it gets children from below the child, or none. -/
theorem differs_replaced {m : Node} {nodes : List Node} (hroot : o.root = .plug (frame :: frames) m)
    (h : ∀ c ∈ nodes, c ∈ frame.before ++ frame.after ∨ c ∈ m.children) :
    o.Differs (o.place frames (.block frame.head nodes) slots) frame.head.id := by
  have hstart := Node.id_mem_ids (.block frame.head nodes)
  refine differs_place (m := frame.attach m) hroot hstart
    (Node.forall_beyond_block hstart fun c hc k hk _ => Or.inl ?_)
  rcases h c hc with hsibling | hchild
  · exact Node.mem_toList_of_child (frame.mem_children_attach.mpr (Or.inr hsibling)) hk
  · exact Node.mem_toList_of_child (frame.mem_children_attach.mpr (Or.inl rfl))
      (Node.mem_toList_of_child hchild hk)

/-- Some children of a block stay in it, and others come into a new block behind them. -/
theorem differs_grouped {group : Head} {stay members : List Node}
    (hroot : o.root = .plug frames (.block head children)) (hstay : stay ⊆ children)
    (hmembers : members ⊆ children) :
    o.Differs (o.place frames (.block head (stay ++ [.block group members])) slots) group.id := by
  have hold {c : Node} (hc : c ∈ children) {k : Node} (hk : k ∈ c.toList) :
      k ∈ (Node.block head children).toList := Node.mem_toList_of_child hc hk
  have hgroup : group.id ∈ (Node.block group members).ids := Node.id_mem_ids _
  have hmem : Node.block group members ∈ stay ++ [.block group members] :=
    List.mem_append_right _ List.mem_cons_self
  have hstart := Node.id_mem_ids_of_child (n := .block head (stay ++ [.block group members])) hmem
  refine differs_place hroot hstart
    (Node.forall_beyond_block hstart fun c hc k hk hbeyond => Or.inl ?_)
  rcases List.mem_append.mp hc with hc | hc
  · exact hold (hstay hc) hk
  · rw [List.mem_singleton] at hc
    subst hc
    exact Node.forall_beyond_block (motive := (· ∈ (Node.block head children).toList)) hgroup
      (fun c hc k hk _ => hold (hmembers hc) hk) k hk hbeyond

/-- Some children of a block stay in it, and others come in front of it. -/
theorem differs_lifted {moved kept : List Node}
    (hroot : o.root = .plug (frame :: frames) (.block head children)) (hmoved : moved ⊆ children)
    (hkept : kept ⊆ children) :
    o.Differs (o.place (⟨frame.head, frame.before ++ moved, frame.after⟩ :: frames)
      (.block head kept) slots) head.id := by
  let after : NodeFrame := ⟨frame.head, frame.before ++ moved, frame.after⟩
  let before : Node := frame.attach (.block head children)
  have hold {c : Node} (hc : c ∈ children) {k : Node} (hk : k ∈ c.toList) : k ∈ before.toList :=
    Node.mem_toList_of_child (frame.mem_children_attach.mpr (Or.inl rfl))
      (Node.mem_toList_of_child (n := .block head children) hc hk)
  have hblock : head.id ∈ (Node.block head kept).ids := Node.id_mem_ids _
  have hstart : head.id ∈ (after.attach (.block head kept)).ids :=
    Node.mem_ids_plug [after] hblock
  refine differs_place (m := before) (n := after.attach (.block head kept)) hroot hstart
    (Node.forall_beyond_block hstart fun c hc k hk hbeyond => Or.inl ?_)
  rcases after.mem_children_attach.mp hc with rfl | hc
  · exact Node.forall_beyond_block (motive := (· ∈ before.toList)) hblock
      (fun c hc k hk _ => hold (hkept hc) hk) k hk hbeyond
  · rw [List.mem_append, List.mem_append, or_right_comm, ← List.mem_append] at hc
    rcases hc with hc | hc
    · exact Node.mem_toList_of_child (frame.mem_children_attach.mpr (Or.inr hc)) hk
    · exact hold (hmoved hc) hk

end

/-- A step announces nothing, tells nobody and leaves the conditions as they are, or it ends with the
walk upwards from the node where it has made a difference. -/
theorem Step.silent_or_changed (h : o.Step e x) (hnodup : o.root.ids.Nodup)
    (hafter : x.outline.root.ids.Nodup) :
    e.notice? x.answer = none ∧ x.events = [] ∧ o.Silent x.outline ∨
      ∃ p start notice, e.notice? x.answer = some notice ∧ o.origin? x e = some start ∧
        x = p.changed x.answer start notice ∧ o.Differs p start := by
  cases h with
  | idle h hnew => exact Or.inl ⟨h, rfl, o.silent_refl⟩
  | added hroot hplant hchange htarget =>
    rw [changed, Node.ids_touch] at hafter
    exact Or.inr ⟨_, _, _, Edit.notice?_of_change? hchange (by decide) (by decide), rfl, rfl,
      differs_added hroot hplant hafter⟩
  | removed hroot =>
    exact Or.inr ⟨_, _, _, rfl, parent?_plug hnodup hroot, rfl,
      differs_replaced hroot fun c hc => Or.inl hc⟩
  | grouped hroot hmatched htake =>
    exact Or.inr ⟨_, _, _, rfl, rfl, rfl, differs_grouped hroot List.filter_sublist.subset
      (hmatched ▸ List.filter_sublist.subset)⟩
  | @emptied frame frames head children candidates hroot hsome hall =>
    refine Or.inr ⟨_, _, _, rfl, ?_, rfl, differs_replaced hroot fun c hc => ?_⟩
    · refine (if_neg ?_).trans (parent?_plug hnodup hroot)
      rw [changed, Node.ids_touch]
      exact Node.not_mem_ids_emptied (hroot ▸ hnodup)
    · rwa [List.mem_append, List.mem_append, or_right_comm, ← List.mem_append] at hc
  | @kept frame frames head children moved kept candidates hroot hmoved hkept hsome hrest =>
    refine Or.inr ⟨_, head.id, _, rfl, if_pos ?_, rfl, differs_lifted hroot
      (hmoved ▸ List.filter_sublist.subset) (hkept ▸ List.filter_sublist.subset)⟩
    rw [changed, Node.ids_touch]
    exact Node.mem_ids_plug _ (Node.id_mem_ids _)
  | @cleared frames head children hroot =>
    have hstart := Node.id_mem_ids (.block head [])
    exact Or.inr ⟨_, _, _, rfl, rfl, rfl, differs_place hroot hstart
      (Node.forall_beyond_block hstart (List.forall_mem_nil _))⟩
  | @refilled e answer change frames head content after hroot hchange hedit htarget hnew =>
    have hstart := Node.id_mem_ids (.leaf head after)
    let p := o.place frames (.leaf head after) o.slots
    obtain ⟨hnotice, hfrom⟩ := announces_content (o := o)
      (p := (p.changed answer head.id ⟨head.id, change⟩).outline) hchange hedit hnew
    rw [htarget] at hnotice hfrom
    refine Or.inr ⟨p, head.id, _, hnotice, ?_, rfl, differs_place hroot hstart ?_⟩
    · show answer.created?.or _ = _
      rw [hnew, hfrom]
      rfl
    · intro k hk hbeyond
      rw [Node.toList, List.mem_singleton] at hk
      exact absurd (hk ▸ hstart) hbeyond
  | @relabelled frames n logical hroot =>
    have hid : (n.withHead ({ · with logical })).id = n.id := by cases n <;> rfl
    refine Or.inr ⟨_, n.id, _, rfl, rfl, rfl, differs_place hroot (hid ▸ Node.id_mem_ids _) ?_⟩
    intro k hk hbeyond
    rcases Node.mem_toList.mp hk with rfl | ⟨c, hc, hk⟩
    · exact absurd (hid ▸ Node.id_mem_ids _) hbeyond
    · rw [Node.children_withHead] at hc
      exact Or.inl (Node.mem_toList_of_child hc hk)
  | @subscribed frames n hroot =>
    exact Or.inl ⟨rfl, rfl, frames, n, _, hroot, rfl, Or.inr ⟨(· ++ [o.nextListener]), rfl⟩⟩
  | @unsubscribed frames n listener hroot =>
    exact Or.inl ⟨rfl, rfl, frames, n, _, hroot, rfl, Or.inr ⟨(·.filter (· != listener)), rfl⟩⟩
  | @compiled frames n hroot => exact Or.inl ⟨rfl, rfl, frames, n, _, hroot, rfl, Or.inl rfl⟩

/-- A step leaves the conditions as they are, or it forgets all expressions from where it has made a
difference up to the root. -/
theorem Step.silent_or_clears (h : o.Step e x) (hnodup : o.root.ids.Nodup)
    (hafter : x.outline.root.ids.Nodup) :
    e.notice? x.answer = none ∧ o.Silent x.outline ∨
      ∃ notice start, e.notice? x.answer = some notice ∧ o.origin? x e = some start ∧
        o.Clears x.outline start := by
  obtain ⟨hnone, -, hsilent⟩ | ⟨p, start, notice, hnotice, horigin, hx, hdiffers⟩ :=
    h.silent_or_changed hnodup hafter
  · exact Or.inl ⟨hnone, hsilent⟩
  · rw [hx] at hafter
    have hclears := hdiffers.clears hafter
    rw [← hx] at hclears
    exact Or.inr ⟨notice, start, hnotice, horigin, hclears⟩

end Outline

end EntityQuery
