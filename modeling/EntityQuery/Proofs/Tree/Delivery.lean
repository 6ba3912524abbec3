import EntityQuery.Proofs.Tree.Audience

/-!
# Who is told of a change

An edit with an effect tells the listeners of a node and of the blocks around it, as they stand
after the edit. Nodes that are new have no listeners, so that an edit that appends a node tells the
listeners from its block upwards.

* `Tree.listeners`, `Tree.upwards` — the listeners of a condition, and the way from it to the root.
* `Represents.upwards_plug`, `Represents.events_upwards` — the way goes through the blocks around a
  node.
* `Tree.notice?`, `Tree.start?`, `Tree.told` — what an edit announces, and to whom.
* `Outline.Step.told`, `Represents.told_or_silent` — who is told by a step, and by an edit.
-/

namespace EntityQuery

namespace Tree

/-- The listeners of a condition, in the order in which they came. -/
def listeners (t : Tree) (id : NodeId) : List Nat := (t.arena.get? id).elim [] (·.listeners)

/-- The names from a condition up to the root. -/
def upwards (t : Tree) (id : NodeId) : List NodeId :=
  (List.range t.levels).filterMap (t.ancestor? · id)

/-- What an edit announces; nothing if it fails or has no effect. -/
def notice? (t : Tree) (e : Edit) : Option Notice :=
  match (t.perform e).answer with
  | .error _ => none
  | .ok answer => e.notice? answer

/-- From where an edit tells listeners upwards: the condition to which it is addressed, but the
block that was above it where the condition goes. -/
def start? (t : Tree) (e : Edit) : Option NodeId :=
  match e.change? with
  | some .removed => t.ancestor? 1 e.target
  | some .ungrouped =>
    if (t.after e).contains e.target then some e.target else t.ancestor? 1 e.target
  | _ => some e.target

/-- The names whose listeners are told of an edit, as they are above each other after it. -/
def told (t : Tree) (e : Edit) : List NodeId := ((t.start? e).map (t.after e).upwards).getD []

end Tree

/-! ### The way to the root -/

/-- The heads of a node and of the blocks around it. -/
def Node.heads (frames : List NodeFrame) (n : Node) : List Head := n.head :: frames.map (·.head)

theorem Node.heads_cons (frame : NodeFrame) (frames : List NodeFrame) (n : Node) :
    heads (frame :: frames) n = n.head :: heads frames (frame.attach n) := rfl

/-- A walk over the positions of a list and beyond its end. -/
theorem filterMap_range_getElem? {α : Type} {l : List α} {bound : Nat}
    (h : l.length ≤ bound) : (List.range bound).filterMap (l[·]?) = l := by
  induction l generalizing bound with
  | nil => simp
  | cons a l ih =>
    obtain _ | bound := bound
    · cases h
    · rw [List.range_succ_eq_map, List.filterMap_cons, List.filterMap_map]
      exact congrArg (a :: ·) (ih (Nat.le_of_succ_le_succ h))

namespace Represents

variable {t : Tree} {o : Outline} {frames : List NodeFrame} {n : Node}

theorem listeners_plug (h : Represents t o) (hroot : o.root = .plug frames n) :
    t.listeners n.id = n.head.listeners := by
  rw [Tree.listeners, (h.includes hroot).get?_eq]
  rfl

theorem ancestor?_plug (h : Represents t o) (hroot : o.root = .plug frames n) (steps : Nat) :
    t.ancestor? steps n.id = ((Node.heads frames n).map (·.id))[steps]? := by
  induction frames generalizing n steps with
  | nil =>
    cases steps with
    | zero => rfl
    | succ steps =>
      rw [Tree.ancestor?, (h.includes hroot).get?_eq]
      rfl
  | cons frame frames ih =>
    cases steps with
    | zero => rfl
    | succ steps =>
      rw [Tree.ancestor?, (h.includes hroot).get?_eq]
      exact ih (n := frame.attach n) hroot steps

/-- The way upwards from a node goes through the blocks around it. -/
theorem upwards_plug (h : Represents t o) (hroot : o.root = .plug frames n) :
    t.upwards n.id = (Node.heads frames n).map (·.id) := by
  have hlength : ((Node.heads frames n).map (·.id)).length ≤ t.levels := by
    have hlevels := h.levels
    have hframes := Node.length_le_ids_plug frames n
    rw [hroot] at hlevels
    rw [List.length_map, Node.heads, List.length_cons, List.length_map]
    omega
  rw [Tree.upwards]
  simp only [h.ancestor?_plug hroot]
  exact filterMap_range_getElem? hlength

theorem listeners_of_mem (h : Represents t o) (hroot : o.root = .plug frames n) {head : Head}
    (hhead : head ∈ Node.heads frames n) : t.listeners head.id = head.listeners := by
  induction frames generalizing n with
  | nil =>
    rw [Node.heads, List.map_nil, List.mem_singleton] at hhead
    rw [hhead]
    exact h.listeners_plug hroot
  | cons frame frames ih =>
    rw [Node.heads_cons, List.mem_cons] at hhead
    obtain rfl | hhead := hhead
    · exact h.listeners_plug hroot
    · exact ih (n := frame.attach n) hroot hhead

/-- What is heard on the way upwards. -/
theorem events_upwards (h : Represents t o) (hroot : o.root = .plug frames n) (notice : Notice) :
    (t.upwards n.id).flatMap (fun id => notice.events (t.listeners id)) =
      (Node.heads frames n).flatMap fun head => notice.events head.listeners := by
  rw [h.upwards_plug hroot, List.flatMap_map]
  exact List.flatMap_congr fun head hhead => by rw [h.listeners_of_mem hroot hhead]

/-- On the way upwards each name is that of a child of the next one. -/
theorem isChain_upwards (h : Represents t o) (hroot : o.root = .plug frames n) :
    (t.upwards n.id).IsChain fun id block => t.parent id = .ok (some block) := by
  rw [h.upwards_plug hroot]
  induction frames generalizing n with
  | nil => exact List.isChain_singleton _
  | cons frame frames ih =>
    refine List.isChain_cons_cons.mpr ⟨?_, ih (n := frame.attach n) hroot⟩
    show t.parent n.id = _
    rw [Tree.parent, Tree.entry, (h.includes hroot).get?_eq]
    rfl

/-- The way upwards ends at the root. -/
theorem getLast?_upwards (h : Represents t o) (hroot : o.root = .plug frames n) :
    (t.upwards n.id).getLast? = some t.root := by
  rw [h.upwards_plug hroot]
  induction frames generalizing n with
  | nil => rw [h.root, hroot]; rfl
  | cons frame frames ih =>
    rw [Node.heads_cons, List.map_cons, Node.heads, List.map_cons, List.getLast?_cons_cons]
    exact ih (n := frame.attach n) hroot

end Represents

/-! ### What a step tells -/

namespace Outline

variable {α : Type} {o p : Outline} {frame : NodeFrame} {frames : List NodeFrame} {n : Node}
  {answer : α} {notice : Notice}

/-- The listeners of a node and of the blocks around it hear of a change. -/
def Outcome.Told (x : Outcome α) (notice : Notice) (start : NodeId) : Prop :=
  ∃ frames n, x.outline.root = .plug frames n ∧ n.id = start ∧
    x.events = (Node.heads frames n).flatMap fun head => notice.events head.listeners

theorem told_changed {id : NodeId} (hroot : p.root = .plug frames n) (hid : n.id = id)
    (hnodup : (p.changed answer id notice).outline.root.ids.Nodup) :
    (p.changed answer id notice).Told notice id := by
  subst hid
  rw [changed, Node.ids_touch, hroot] at hnodup
  refine ⟨frames.map NodeFrame.uncached, n.withHead Head.uncached, ?_, by cases n <;> rfl, ?_⟩
  · rw [changed, hroot, Node.touch_plug_self hnodup]
  · rw [changed, hroot, Node.lineage_plug_self hnodup, Node.heads, Node.head_withHead, List.map_map,
      List.flatMap_cons, List.flatMap_cons, List.flatMap_map, List.flatMap_map]
    rfl

/-- Where nobody listens to a node, it is the same to start from its block. -/
theorem told_child (hroot : p.root = .plug (frame :: frames) n) (hsilent : n.head.listeners = [])
    (hnodup : (p.changed answer n.id notice).outline.root.ids.Nodup) :
    (p.changed answer n.id notice).Told notice frame.head.id := by
  rw [changed, Node.ids_touch, hroot] at hnodup
  refine ⟨frames.map NodeFrame.uncached, frame.uncached.attach (n.withHead Head.uncached), ?_, rfl,
    ?_⟩
  · rw [changed, hroot, Node.touch_plug_self hnodup]
    rfl
  · rw [changed, hroot, Node.lineage_plug_self hnodup, List.flatMap_cons, hsilent, Node.heads,
      List.map_map, List.map_cons, List.flatMap_cons, List.flatMap_cons, List.flatMap_map,
      List.flatMap_map]
    rfl

/-- A change tells the listeners of the node where it has made a difference. -/
theorem Differs.told {start : NodeId} (h : o.Differs p start)
    (hafter : (p.changed answer start notice).outline.root.ids.Nodup) :
    (p.changed answer start notice).Told notice start := by
  obtain ⟨frames, n, hroot, hid⟩ := Node.exists_plug h.mem
  exact told_changed hroot hid hafter

/-- What a step tells, and to whom. -/
theorem Step.told {e : Edit} {x : Outcome EditAnswer} (h : o.Step e x)
    (hnodup : o.root.ids.Nodup) (hafter : x.outline.root.ids.Nodup) :
    match e.notice? x.answer with
    | none => x.events = []
    | some notice => ∃ start, o.start? x.outline e = some start ∧ x.Told notice start := by
  obtain ⟨hnone, hevents, -⟩ | ⟨p, start, notice, hnotice, horigin, hx, hdiffers⟩ :=
    h.silent_or_changed hnodup hafter
  · rw [hnone]
    exact hevents
  rw [hnotice]
  cases hcreated : x.answer.created? with
  | none =>
    rw [origin?, hcreated, Option.none_or] at horigin
    rw [hx] at hafter
    have htold := hdiffers.told hafter
    rw [← hx] at htold
    exact ⟨start, horigin, htold⟩
  | some id =>
    -- nobody listens to the new node yet
    cases h with
    | idle h hnew =>
      rw [hnew] at hcreated
      cases hcreated
    | @added _ frames head children c n slots hroot hplant hchange htarget =>
      have hsilent : n.head.listeners = [] := by
        have hplanted := Node.head_plant o.slots c
        rw [hplant] at hplanted
        exact (hplanted n n.mem_toList_self).2
      cases hnotice.symm.trans (Edit.notice?_of_change? hchange (by decide) (by decide))
      have hblock (after : Outline) : o.start? after e = some head.id := by
        rw [start?_of_change? hchange (by decide) (by decide), htarget]
      exact ⟨_, hblock _, told_child (p := o.place (⟨head, children, []⟩ :: frames) n slots)
        rfl hsilent hafter⟩
    | @grouped frames head children candidates first second others id slots hroot hmatched htake =>
      cases hnotice
      exact ⟨_, rfl, told_child
        (p := o.place (⟨head, _, []⟩ :: frames) (.block ⟨id, _, _, _⟩ _) slots) rfl rfl hafter⟩
    | refilled after hroot hchange hedit htarget hnew =>
      have hnone := hnew.symm.trans hcreated
      cases hnone
    | _ => cases hcreated

end Outline

/-! ### What an edit tells -/

namespace Represents

variable {t : Tree} {o : Outline}

theorem root_after (h : Represents t o) (e : Edit) : (t.after e).root = t.root := by
  rw [(h.after e).root, h.root, Outline.after]
  cases hx : o.perform e with
  | error cause => rfl
  | ok x => exact (Outline.step_perform h.nodup hx).id_root

theorem ancestor?_one (h : Represents t o) (id : NodeId) :
    t.ancestor? 1 id = o.root.parent? id := by
  obtain ⟨frames, n, hroot, rfl, -⟩ | ⟨hfind, -, hnone⟩ := h.known_or_unknown id
  · rw [h.ancestor?_plug hroot, Outline.parent?_plug h.nodup hroot]
    cases frames <;> rfl
  · rw [Tree.ancestor?, hnone, Node.parent?,
      Node.lineage_of_not_mem (Node.find?_eq_none.mp hfind)]
    rfl

theorem start?_eq (h : Represents t o) (e : Edit) : t.start? e = o.start? (o.after e) e := by
  rw [Tree.start?, Outline.start?]
  cases e.change? with
  | none => rfl
  | some change =>
    cases change <;> simp only [h.ancestor?_one, (h.after e).contains_iff_mem]

/-- The events of an edit that succeeds are those of the outline. -/
theorem events_perform (h : Represents t o) {e : Edit} {x : Outline.Outcome EditAnswer}
    (hx : o.perform e = .ok x) : (t.perform e).events = x.events := by
  have hcall := h.call e
  rw [hx] at hcall
  obtain ⟨u, hu, -, hheard⟩ := hcall
  simp only [Tree.perform, Tree.outcome, hu, hheard, List.drop_left]

/-- An edit that announces a change tells the listeners of a node and of the blocks around it, as
they stand after it; another edit tells nobody. -/
theorem told_or_silent (h : Represents t o) (e : Edit) :
    t.notice? e = none ∧ (t.perform e).events = [] ∨
      ∃ notice frames n, t.notice? e = some notice ∧ t.start? e = some n.id ∧
        (o.after e).root = .plug frames n ∧
        (t.perform e).events =
          (Node.heads frames n).flatMap fun head => notice.events head.listeners := by
  cases hx : o.perform e with
  | error cause =>
    rw [Tree.notice?, h.perform_error hx]
    exact Or.inl ⟨rfl, rfl⟩
  | ok x =>
    have hafter : o.after e = x.outline := by rw [Outline.after, hx]
    have hanswer : (t.perform e).answer = .ok x.answer := by
      rw [h.answer_perform, hx]
      rfl
    have hnodup := (h.after e).nodup
    rw [hafter] at hnodup
    have htold := (Outline.step_perform h.nodup hx).told h.nodup hnodup
    rw [Tree.notice?, hanswer, h.events_perform hx, h.start?_eq, hafter]
    cases hnotice : e.notice? x.answer with
    | none =>
      rw [hnotice] at htold
      exact Or.inl ⟨hnotice, htold⟩
    | some notice =>
      rw [hnotice] at htold
      obtain ⟨start, hstart, frames, n, hroot, rfl, hevents⟩ := htold
      exact Or.inr ⟨notice, frames, n, hnotice, hstart, hroot, hevents⟩

end Represents

end EntityQuery
