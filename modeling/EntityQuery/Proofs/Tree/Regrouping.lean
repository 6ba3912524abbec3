import EntityQuery.Proofs.Tree.Inverses
import EntityQuery.Proofs.Tree.Refusals

/-!
# What regrouping does to every condition

Grouping and ungrouping move children of a block and leave everything else alone. What they do is
said of the entry of every name, without the expression that it remembers.

* `Tree.seen` — what is seen of a condition; `Represents.seen_congr` for names that nothing happens
  to.
* `Tree.Gathered`, `Tree.Lifted`, `Tree.Reordered` — a tree before and after children of a block have
  moved.
* `Represents.root_after_group`, `Represents.ungroup_block`, `Represents.return_group` — the outline
  after grouping, after ungrouping, and after one and then the other.
* `Tree.Regroups` — what both edits do with any candidates; `Tree.regroups_run` for every tree that
  comes about by edits.
-/

namespace EntityQuery

namespace Node

variable {id : NodeId} {e : Entry} {ns : List Node}

/-- The entries below nodes do not tell what is above these nodes. -/
theorem mem_allEntries_iff (hid : id ∉ ns.map Node.id) (parent? other? : Option NodeId) :
    (id, e) ∈ allEntries parent? ns ↔ (id, e) ∈ allEntries other? ns := by
  induction ns with
  | nil => exact Iff.rfl
  | cons n ns ih =>
    rw [List.map_cons, List.mem_cons, not_or] at hid
    have hne (f : Entry) : (id, e) ≠ (n.id, f) := fun heq => hid.1 (congrArg Prod.fst heq)
    rw [allEntries, allEntries, entries_eq_cons, entries_eq_cons, Multiset.mem_add,
      Multiset.mem_add, Multiset.mem_cons, Multiset.mem_cons, or_iff_right (hne _),
      or_iff_right (hne _), ih hid.2]

/-- Expressions remembered around a node do not count when all are forgotten. -/
theorem forgetful_plug_uncached (frames : List NodeFrame) {m n : Node}
    (h : m.forgetful = n.forgetful) :
    (plug (frames.map NodeFrame.uncached) m).forgetful = (plug frames n).forgetful := by
  induction frames generalizing m n with
  | nil => exact h
  | cons frame frames ih =>
    refine ih ?_
    rw [NodeFrame.attach, NodeFrame.attach, forgetful, forgetful, allForgetful_eq_map,
      allForgetful_eq_map, List.map_append, List.map_append, List.map_cons, List.map_cons, h]
    rfl

end Node

/-! ### What is seen of conditions -/

/-- What is seen of a condition: its entry without a remembered expression. -/
def Tree.seen (t : Tree) (id : NodeId) : Except ConditionError Entry :=
  (t.entry id).map Entry.forgetful

namespace Represents

variable {t u : Tree} {o p : Outline} {k k' : Node} {id : NodeId}

theorem seen_eq_ok_iff (h : Represents t o) (hk : o.root.forgetful = k.forgetful) {e : Entry} :
    t.seen id = .ok e ↔ ∃ f, (id, f) ∈ k.entries none ∧ f.forgetful = e := by
  have hstored : t.forgetful.arena.get? id = some e ↔ (id, e) ∈ k.forgetful.entries none := by
    rw [h.forgetful.stores.mem, ← hk]
  rw [Node.entries_forgetful, Multiset.mem_map] at hstored
  rw [Tree.seen, ← Tree.entry_forgetful, Tree.entry]
  constructor
  · intro hseen
    cases hget : t.forgetful.arena.get? id with
    | none =>
      rw [hget] at hseen
      cases hseen
    | some f =>
      rw [hget] at hseen
      cases hseen
      obtain ⟨⟨i, f⟩, hf, heq⟩ := hstored.mp hget
      cases heq
      exact ⟨f, hf, rfl⟩
  · rintro ⟨f, hf, rfl⟩
    rw [hstored.mpr ⟨(id, f), hf, rfl⟩]

/-- Nothing is seen only of names that are not in use. -/
theorem seen_eq_error {cause : ConditionError} (h : t.seen id = .error cause) :
    cause = .unknownCondition id := by
  rw [Tree.seen, Tree.entry] at h
  cases hget : t.arena.get? id with
  | none =>
    rw [hget] at h
    cases h
    rfl
  | some e =>
    rw [hget] at h
    cases h

/-- Of a name with the same entry in both outlines the same is seen. -/
theorem seen_congr (h : Represents t o) (hu : Represents u p) (hk : o.root.forgetful = k.forgetful)
    (hk' : p.root.forgetful = k'.forgetful)
    (hsame : ∀ e, (id, e) ∈ k'.entries none ↔ (id, e) ∈ k.entries none) :
    u.seen id = t.seen id := by
  have hiff (e : Entry) : u.seen id = .ok e ↔ t.seen id = .ok e := by
    simp only [hu.seen_eq_ok_iff hk', h.seen_eq_ok_iff hk, hsame]
  cases hseen : t.seen id with
  | ok e => exact (hiff e).mpr hseen
  | error cause =>
    cases hseen' : u.seen id with
    | ok e =>
      rw [(hiff e).mp hseen'] at hseen
      cases hseen
    | error cause' => rw [seen_eq_error hseen, seen_eq_error hseen']

end Represents

/-! ### Children in and out of a block -/

namespace Entry

/-- The entry of a block with other children. -/
def withChildren (names : List NodeId) (e : Entry) : Entry := { e with body := .block names }

/-- The entry of a condition below another block. -/
def below (parent : NodeId) (e : Entry) : Entry := { e with parent? := some parent }

end Entry

/-- Children of a block have moved into a new block behind the others. The new block joins like the
first of them and has no listeners. They have a new parent, the block has other children, and nothing
else has changed. -/
structure Tree.Gathered (t u : Tree) (block new : NodeId) (moved others : List NodeId) : Prop where
  unknown : t.contains new = false
  seen_new : ∃ first e, moved.head? = some first ∧ t.entry first = .ok e ∧
    u.seen new = .ok { parent? := some block, logical := e.logical, body := .block moved }
  seen_block : u.seen block = (t.seen block).map (Entry.withChildren (others ++ [new]))
  seen_moved (id : NodeId) (hmoved : id ∈ moved) : u.seen id = (t.seen id).map (Entry.below new)
  seen_other (id : NodeId) (hblock : id ≠ block) (hnew : id ≠ new) (hmoved : id ∉ moved) :
    u.seen id = t.seen id

/-- Children of a block have moved in front of it, into its parent. Some others are left in it, or
there are none and the block is gone. They have a new parent, both blocks have other children, and
nothing else has changed. -/
structure Tree.Lifted (t u : Tree) (block parent : NodeId) (moved left before after : List NodeId) :
    Prop where
  seen_parent : u.seen parent = (t.seen parent).map
    (Entry.withChildren (before ++ moved ++ (if left = [] then [] else [block]) ++ after))
  gone (hleft : left = []) : u.contains block = false
  seen_block (hleft : left ≠ []) : u.seen block = (t.seen block).map (Entry.withChildren left)
  seen_moved (id : NodeId) (hmoved : id ∈ moved) : u.seen id = (t.seen id).map (Entry.below parent)
  seen_other (id : NodeId) (hblock : id ≠ block) (hparent : id ≠ parent) (hmoved : id ∉ moved) :
    u.seen id = t.seen id

/-- The children of a block are in another order, and nothing else has changed. -/
structure Tree.Reordered (t u : Tree) (block : NodeId) (names : List NodeId) : Prop where
  seen_block : u.seen block = (t.seen block).map (Entry.withChildren names)
  seen_other (id : NodeId) (hblock : id ≠ block) : u.seen id = t.seen id

namespace Represents

variable {t u : Tree} {o p : Outline} {frame : NodeFrame} {frames : List NodeFrame} {head : Head}
  {children moved left : List Node} {new : NodeId} {logical : Logical}

/-- The name that is taken next is not in use. -/
theorem not_contains_take (h : Represents t o) : t.contains o.slots.take.1 = false := by
  let e : Entry := { parent? := none, logical := .and, body := .block [] }
  have hname : (t.arena.alloc e).1 = o.slots.take.1 := by
    rw [← h.slots, ← t.arena.numbering_alloc e]
  rw [Tree.contains, ← hname, Arena.get?_alloc_fresh h.stores.tidy]
  rfl

/-- What is seen of a node in its surroundings. -/
theorem seen_plug (h : Represents t o) {n : Node}
    (hroot : o.root.forgetful = (Node.plug frames n).forgetful) :
    t.seen n.id = .ok (n.entry (Node.above frames)).forgetful := by
  rw [h.seen_eq_ok_iff hroot, Node.entries_plug, Node.entries_eq_cons]
  exact ⟨_, Multiset.mem_add.mpr (Or.inl (Multiset.mem_cons_self _ _)), rfl⟩

/-- What is seen of the children of a block. -/
theorem seen_child (h : Represents t o)
    (hroot : o.root.forgetful = (Node.plug frames (.block head children)).forgetful) {n : Node}
    (hn : n ∈ children) : t.seen n.id = .ok (n.entry (some head.id)).forgetful := by
  obtain ⟨before, after, rfl⟩ := List.append_of_mem hn
  have hplug : o.root.forgetful = (Node.plug (⟨head, before, after⟩ :: frames) n).forgetful := hroot
  exact h.seen_plug hplug

section Regrouped

variable (h : Represents t o) (hu : Represents u p) (member : Node → Bool)
  (hmoved : children.filter member = moved) (hleft : children.filter (!member ·) = left)

include h hu hmoved hleft

theorem gathered (hroot : o.root = .plug frames (.block head children))
    (hnew : t.contains new = false) (hfirst : moved.head?.map (·.head.logical) = some logical)
    (hafter : p.root.forgetful = (Node.plug frames
      (.block head (left ++ [.block ⟨new, logical, none, []⟩ moved]))).forgetful) :
    t.Gathered u head.id new (moved.map Node.id) (left.map Node.id) where
  unknown := hnew
  seen_new := by
    cases moved with
    | nil => cases hfirst
    | cons first moved =>
      cases hfirst
      have hmem : first ∈ children := (List.mem_filter.mp (hmoved ▸ List.mem_cons_self)).1
      refine ⟨first.id, first.entry (some head.id), rfl, ?_, ?_⟩
      · rw [Tree.entry, ((h.includes hroot).child hmem).get?_eq]
      · exact hu.seen_child hafter (List.mem_append_right _ List.mem_cons_self)
  seen_block := by
    have hnames : (left ++ [Node.block ⟨new, logical, none, []⟩ moved]).map Node.id =
        left.map Node.id ++ [new] := List.map_append
    rw [show u.seen head.id = _ from hu.seen_plug hafter,
      show t.seen head.id = _ from h.seen_plug (congrArg Node.forgetful hroot), ← hnames]
    rfl
  seen_moved := by
    rw [List.forall_mem_map]
    intro n hn
    have hmem : n ∈ children := (List.mem_filter.mp (hmoved ▸ hn)).1
    have hplug : p.root.forgetful =
      (Node.plug (⟨head, left, []⟩ :: frames) (.block ⟨new, logical, none, []⟩ moved)).forgetful :=
      hafter
    rw [h.seen_child (congrArg Node.forgetful hroot) hmem]
    exact hu.seen_child hplug hn
  seen_other id hblock hnew hnot := by
    have hsplit := Node.allEntries_filter (some head.id) member children
    refine h.seen_congr hu (congrArg Node.forgetful hroot) hafter fun e => ?_
    rw [Node.entries_plug_block, Node.entries_plug_block, ← hsplit, hmoved, hleft,
      Node.allEntries_append, Node.allEntries_singleton, Node.entries]
    simp only [Multiset.mem_cons, Multiset.mem_add, Prod.mk.injEq, hblock, hnew, false_and,
      false_or, Node.mem_allEntries_iff hnot (some new) (some head.id)]
    rw [or_comm (a := (id, e) ∈ Node.allEntries (some head.id) left)]

theorem lifted (hroot : o.root = .plug (frame :: frames) (.block head children))
    (hafter : p.root.forgetful = (Node.plug frames (.block frame.head (frame.before ++ moved ++
      (if left = [] then [] else [.block head left]) ++ frame.after))).forgetful) :
    t.Lifted u head.id frame.head.id (moved.map Node.id) (left.map Node.id)
      (frame.before.map Node.id) (frame.after.map Node.id) where
  seen_parent := by
    have hbefore : t.seen frame.head.id = _ :=
      h.seen_plug (n := frame.attach (.block head children)) (congrArg Node.forgetful hroot)
    have hrest : (if left = [] then [] else [Node.block head left]).map Node.id =
        if left.map Node.id = [] then [] else [head.id] := by
      by_cases hnone : left = []
      · rw [if_pos hnone, if_pos (List.map_eq_nil_iff.mpr hnone), List.map_nil]
      · rw [if_neg hnone, if_neg (mt List.map_eq_nil_iff.mp hnone)]
        rfl
    rw [show u.seen frame.head.id = _ from hu.seen_plug hafter, hbefore, ← hrest,
      ← List.map_append, ← List.map_append, ← List.map_append]
    rfl
  gone hnone := by
    rw [List.map_eq_nil_iff] at hnone
    have hall : moved = children := by
      rw [← hmoved, List.filter_eq_self, ← List.all_eq_true, Node.all_iff_filter_eq_nil, hleft,
        hnone]
    have hids : p.root.ids = (Node.plug frames
        (.block frame.head (frame.before ++ children ++ frame.after))).ids := by
      rw [← Node.ids_forgetful, hafter, Node.ids_forgetful, if_pos hnone, List.append_nil, hall]
    rw [Bool.eq_false_iff, ne_eq, hu.contains_iff_mem, hids]
    exact Node.not_mem_ids_emptied (hroot ▸ h.nodup)
  seen_block hsome := by
    have hplug : p.root.forgetful = (Node.plug (⟨frame.head, frame.before ++ moved, frame.after⟩ ::
        frames) (.block head left)).forgetful := by
      rw [hafter, if_neg (mt List.map_eq_nil_iff.mpr hsome), List.append_assoc _ [_]]
      rfl
    rw [show u.seen head.id = _ from hu.seen_plug hplug,
      show t.seen head.id = _ from h.seen_plug (congrArg Node.forgetful hroot)]
    rfl
  seen_moved := by
    rw [List.forall_mem_map]
    intro n hn
    have hmem : n ∈ children := (List.mem_filter.mp (hmoved ▸ hn)).1
    rw [h.seen_child (congrArg Node.forgetful hroot) hmem, hu.seen_child hafter
      (List.mem_append_left _ (List.mem_append_left _ (List.mem_append_right _ hn)))]
    rfl
  seen_other id hblock hparent hnot := by
    have hsplit := Node.allEntries_filter (some head.id) member children
    have hbefore : Node.around (frame :: frames) head.id = _ :=
      Node.around_cons frame frames (.block head children)
    have hrest (e : Entry) : (id, e) ∈ Node.allEntries (some frame.head.id)
        (if left = [] then [] else [.block head left]) ↔
          (id, e) ∈ Node.allEntries (some head.id) left := by
      by_cases hnone : left = []
      · rw [if_pos hnone, hnone, Node.allEntries_nil, Node.allEntries_nil]
      · rw [if_neg hnone, Node.allEntries_singleton, Node.entries, Multiset.mem_cons,
          or_iff_right fun heq => hblock (congrArg Prod.fst heq)]
    refine h.seen_congr hu (congrArg Node.forgetful hroot) hafter fun e => ?_
    rw [Node.entries_plug_block, Node.entries_plug_block, hbefore, ← hsplit, hmoved, hleft,
      Node.allEntries_append, Node.allEntries_append, Node.allEntries_append,
      Node.allEntries_append]
    simp only [Multiset.mem_cons, Multiset.mem_add, Prod.mk.injEq, hblock, hparent, false_and,
      false_or, hrest, Node.mem_allEntries_iff hnot (some frame.head.id) (some head.id)]
    tauto

theorem reordered (hroot : o.root = .plug frames (.block head children))
    (hafter : p.root.forgetful = (Node.plug frames (.block head (left ++ moved))).forgetful) :
    t.Reordered u head.id (left.map Node.id ++ moved.map Node.id) where
  seen_block := by
    rw [show u.seen head.id = _ from hu.seen_plug hafter,
      show t.seen head.id = _ from h.seen_plug (congrArg Node.forgetful hroot),
      ← List.map_append]
    rfl
  seen_other id hblock := by
    have hsplit := Node.allEntries_filter (some head.id) member children
    refine h.seen_congr hu (congrArg Node.forgetful hroot) hafter fun e => ?_
    rw [Node.entries_plug_block, Node.entries_plug_block, ← hsplit, hmoved, hleft,
      Node.allEntries_append, add_comm (Node.allEntries (some head.id) left)]
    simp only [Multiset.mem_cons, Prod.mk.injEq, hblock, false_and, false_or]

end Regrouped

/-! ### Outlines after regrouping -/

section Outlines

variable (h : Represents t o) {candidates : List NodeId}

include h

section Grouping

variable {first second : Node} {others : List Node}
  (hroot : o.root = .plug frames (.block head children))
  (hmoved : children.filter (candidates.contains ·.id) = first :: second :: others)
  (hleft : children.filter (!candidates.contains ·.id) = left)

include hroot hmoved

theorem answer_group : (t.perform (.group head.id candidates)).answer =
    .ok (.grouped (some o.slots.take.1)) := by
  rw [h.answer_perform, Outline.perform, Outline.group_plug h.nodup hroot hmoved rfl]
  rfl

include hleft

/-- A new block stands behind the children that are left. -/
theorem root_after_group :
    let group : Node :=
      .block ⟨o.slots.take.1, first.head.logical, none, []⟩ (first :: second :: others)
    (o.after (.group head.id candidates)).root =
      .plug (⟨head.uncached, left, []⟩ :: frames.map NodeFrame.uncached) group := by
  intro group
  have hafter : (o.after (.group head.id candidates)).root =
      (Node.plug (⟨head, left, []⟩ :: frames) group).touch group.id := by
    rw [Outline.after, Outline.perform, Outline.group_plug h.nodup hroot hmoved rfl, hleft]
    rfl
  have hnodup := (h.after (.group head.id candidates)).nodup
  rw [hafter, Node.ids_touch] at hnodup
  rw [hafter, Node.touch_plug_self hnodup]
  rfl

/-- The children of the new block come back behind the children that are left. -/
theorem return_group :
    let t' := t.after (.group head.id candidates)
    let e := Edit.ungroup o.slots.take.1 ((first :: second :: others).map Node.id)
    (t'.perform e).answer = .ok (.flag true) ∧
      (o.run [.group head.id candidates, e]).root.forgetful =
        (Node.plug frames (.block head (left ++ first :: second :: others))).forgetful := by
  intro t' e
  have hrep := h.after (.group head.id candidates)
  have hgroup := h.root_after_group hroot hmoved hleft
  have hall : (first :: second :: others).all
      (((first :: second :: others).map Node.id).contains ·.id) := by
    rw [List.all_eq_true]
    intro n hn
    exact List.contains_iff_mem.mpr (List.mem_map_of_mem hn)
  have hungroup := Outline.ungroup_plug_emptied hrep.nodup hgroup (List.cons_ne_nil _ _) hall
  refine ⟨?_, ?_⟩
  · rw [hrep.answer_perform, Outline.perform, hungroup]
    rfl
  · have hafter : (o.run [.group head.id candidates, e]).root =
        (Node.plug (frames.map NodeFrame.uncached)
          (.block head.uncached (left ++ (first :: second :: others) ++ []))).touch head.id := by
      show ((o.after (.group head.id candidates)).after e).root = _
      rw [Outline.after, Outline.perform, hungroup]
      rfl
    rw [hafter, Node.forgetful_touch, List.append_nil]
    exact Node.forgetful_plug_uncached frames rfl

end Grouping

section Ungrouping

variable (hroot : o.root = .plug (frame :: frames) (.block head children))
  (hmoved : children.filter (candidates.contains ·.id) = moved)
  (hleft : children.filter (!candidates.contains ·.id) = left) (hsome : moved ≠ [])

include hroot hmoved hleft hsome

/-- Children stand in front of their block, or in its place if none are left. -/
theorem ungroup_block : (t.perform (.ungroup head.id candidates)).answer = .ok (.flag true) ∧
    (o.after (.ungroup head.id candidates)).root.forgetful = (Node.plug frames
      (.block frame.head (frame.before ++ moved ++
        (if left = [] then [] else [.block head left]) ++ frame.after))).forgetful := by
  rw [h.answer_perform, Outline.after, Outline.perform]
  by_cases hnone : left = []
  · have hall : children.all (candidates.contains ·.id) := by
      rw [Node.all_iff_filter_eq_nil, hleft, hnone]
    have hchildren : moved = children := by
      rw [← hmoved, List.filter_eq_self, ← List.all_eq_true, hall]
    rw [Outline.ungroup_plug_emptied h.nodup hroot (hchildren ▸ hsome) hall, if_pos hnone,
      List.append_nil, hchildren]
    exact ⟨rfl, Node.forgetful_touch _ _⟩
  · rw [Outline.ungroup_plug_kept h.nodup hroot hmoved hleft hsome hnone, if_neg hnone,
      List.append_assoc _ [_]]
    exact ⟨rfl, Node.forgetful_touch _ _⟩

end Ungrouping

end Outlines

end Represents

/-! ### All regrouping -/

/-- What grouping and ungrouping do to a tree: each either moves the candidates among the children
of a block, or does nothing at all. A block is removed by ungrouping exactly if some of its children
move and none is left. Grouped children that are all moved back stand behind the others. -/
structure Tree.Regroups (t : Tree) : Prop where
  failed {block : NodeId} {cause : ConditionError} (hcause : t.children block = .error cause)
    (candidates : List NodeId) : t.perform (.group block candidates) = ⟨.error cause, t, []⟩ ∧
      t.perform (.ungroup block candidates) = ⟨.error cause, t, []⟩
  few {block : NodeId} {names candidates : List NodeId} (hnames : t.children block = .ok names)
    (hfew : (names.filter (candidates.contains ·)).length < 2) :
    t.perform (.group block candidates) = ⟨.ok (.grouped none), t, []⟩
  group {block : NodeId} {names candidates moved others : List NodeId}
    (hnames : t.children block = .ok names) (hmoved : names.filter (candidates.contains ·) = moved)
    (hothers : names.filter (!candidates.contains ·) = others) (hmany : 2 ≤ moved.length) :
    ∃ new, (t.perform (.group block candidates)).answer = .ok (.grouped (some new)) ∧
      t.Gathered (t.after (.group block candidates)) block new moved others ∧
      let back := Edit.ungroup new moved
      let u := t.run [.group block candidates, back]
      ((t.after (.group block candidates)).perform back).answer = .ok (.flag true) ∧
        t.Reordered u block (others ++ moved) ∧
        (moved <:+ names → u.snapshot u.root = t.snapshot t.root)
  none {block : NodeId} {names candidates : List NodeId} (hnames : t.children block = .ok names)
    (hnone : names.filter (candidates.contains ·) = [] ∨ block = t.root) :
    t.perform (.ungroup block candidates) = ⟨.ok (.flag false), t, []⟩
  ungroup {block : NodeId} {names candidates moved left : List NodeId}
    (hnames : t.children block = .ok names) (hmoved : names.filter (candidates.contains ·) = moved)
    (hleft : names.filter (!candidates.contains ·) = left) (hsome : moved ≠ [])
    (hroot : block ≠ t.root) :
    (t.perform (.ungroup block candidates)).answer = .ok (.flag true) ∧
      ∃ parent before after, t.parent block = .ok (some parent) ∧
        t.children parent = .ok (before ++ block :: after) ∧ block ∉ before ∧
        t.Lifted (t.after (.ungroup block candidates)) block parent moved left before after

namespace Represents

variable {t : Tree} {o : Outline}

/-- A block of a tree in its surroundings, and the names of its children. -/
theorem exists_plug_of_children (h : Represents t o) {block : NodeId} {names : List NodeId}
    (hnames : t.children block = .ok names) : ∃ frames head children,
      o.root = Node.plug frames (.block head children) ∧ head.id = block ∧
        children.map Node.id = names := by
  rw [h.children_eq] at hnames
  cases hchildren : o.children block with
  | error cause =>
    rw [hchildren] at hnames
    cases hnames
  | ok children =>
    rw [hchildren] at hnames
    obtain ⟨frames, head, hroot, hid⟩ := Outline.exists_plug_of_children h.nodup hchildren
    exact ⟨frames, head, children, hroot, hid, Except.ok.inj hnames⟩

/-- Children that are the last ones stay in their order if they are put behind the others. -/
theorem filter_append_of_suffix (candidates : List NodeId) (children : List Node)
    (h : (children.map Node.id).filter (candidates.contains ·) <:+ children.map Node.id) :
    children.filter (!candidates.contains ·.id) ++ children.filter (candidates.contains ·.id) =
      children := by
  obtain ⟨names, hnames⟩ := h
  obtain ⟨before, last, rfl, -, hlast⟩ := List.map_eq_append_iff.mp hnames.symm
  rw [filter_names, List.filter_append, List.map_append] at hlast
  have hall : last.filter (candidates.contains ·.id) = last := by
    rw [List.filter_eq_self]
    intro n hn
    have hmem := hlast ▸ List.mem_map_of_mem (f := Node.id) hn
    rw [← List.map_append, ← List.filter_append] at hmem
    obtain ⟨m, hm, hid⟩ := List.mem_map.mp hmem
    exact hid ▸ (List.mem_filter.mp hm).2
  have hnone : before.filter (candidates.contains ·.id) = [] := by
    have hlength := congrArg List.length hlast
    rw [hall, List.length_append, List.length_map, List.length_map] at hlength
    exact List.eq_nil_of_length_eq_zero (by omega)
  have hbefore : before.filter (!candidates.contains ·.id) = before := by
    rw [List.filter_eq_self, ← List.all_eq_true, Node.all_not_iff_filter_eq_nil, hnone]
  have hothers : last.filter (!candidates.contains ·.id) = [] := by
    rw [← Node.all_iff_filter_eq_nil, List.all_eq_true, ← List.filter_eq_self, hall]
  rw [List.filter_append, List.filter_append, hall, hnone, hbefore, hothers, List.append_nil,
    List.nil_append]

theorem perform_children_error (h : Represents t o) {block : NodeId} {cause : ConditionError}
    (hcause : t.children block = .error cause) (candidates : List NodeId) :
    t.perform (.group block candidates) = ⟨.error cause, t, []⟩ ∧
      t.perform (.ungroup block candidates) = ⟨.error cause, t, []⟩ := by
  rw [h.children_eq] at hcause
  cases hchildren : o.children block with
  | ok children =>
    rw [hchildren] at hcause
    cases hcause
  | error cause' =>
    rw [hchildren] at hcause
    cases hcause
    refine ⟨h.perform_failed ?_, h.perform_failed ?_⟩
    · rw [h.answer_perform, Outline.perform, Outline.group, hchildren]
      rfl
    · rw [h.answer_perform, Outline.perform, Outline.ungroup, hchildren]
      rfl

section Names

variable {block : NodeId} {names candidates moved others left : List NodeId}
  (h : Represents t o) (hnames : t.children block = .ok names)

include h hnames

theorem perform_group_few (hfew : (names.filter (candidates.contains ·)).length < 2) :
    t.perform (.group block candidates) = ⟨.ok (.grouped none), t, []⟩ := by
  obtain ⟨frames, head, children, hroot, rfl, rfl⟩ := h.exists_plug_of_children hnames
  apply h.perform_group_none
  rw [filter_names, List.length_map] at hfew
  rw [h.answer_perform, Outline.perform, Outline.group, Outline.children_plug h.nodup hroot]
  rcases hmatched : children.filter (candidates.contains ·.id) with
    _ | ⟨first, _ | ⟨second, others⟩⟩
  · simp only [hmatched]
    rfl
  · simp only [hmatched]
    rfl
  · rw [hmatched, List.length_cons, List.length_cons] at hfew
    omega

theorem perform_ungroup_none
    (hnone : names.filter (candidates.contains ·) = [] ∨ block = t.root) :
    t.perform (.ungroup block candidates) = ⟨.ok (.flag false), t, []⟩ := by
  obtain ⟨frames, head, children, hroot, rfl, rfl⟩ := h.exists_plug_of_children hnames
  apply h.perform_ungroup_false
  have hparent : o.root.parent? head.id = frames.head?.map (·.head.id) :=
    Outline.parent?_plug h.nodup hroot
  rw [h.answer_perform, Outline.perform, Outline.ungroup, Outline.children_plug h.nodup hroot]
  obtain hnone | hself := hnone
  · rw [filter_names, List.map_eq_nil_iff, ← Node.all_not_iff_filter_eq_nil] at hnone
    cases o.root.parent? head.id with
    | none => rfl
    | some parent =>
      simp only [if_pos hnone]
      rfl
  · have hnoparent : o.root.parent? head.id = none := by
      rw [hself, h.root, Node.parent?, Node.lineage_self]
      rfl
    simp only [hnoparent]
    rfl

/-- Two or more candidates are found among the children of a block. -/
theorem exists_matched (hmoved : names.filter (candidates.contains ·) = moved)
    (hmany : 2 ≤ moved.length) : ∃ frames head children first second rest,
      o.root = Node.plug frames (.block head children) ∧ head.id = block ∧
        children.map Node.id = names ∧
        children.filter (candidates.contains ·.id) = first :: second :: rest ∧
        (first :: second :: rest).map Node.id = moved := by
  obtain ⟨frames, head, children, hroot, hid, rfl⟩ := h.exists_plug_of_children hnames
  rw [filter_names] at hmoved
  rcases hmatched : children.filter (candidates.contains ·.id) with
    _ | ⟨first, _ | ⟨second, rest⟩⟩
  · rw [← hmoved, hmatched] at hmany
    cases hmany
  · rw [← hmoved, hmatched, List.map_singleton, List.length_singleton] at hmany
    omega
  · exact ⟨frames, head, children, first, second, rest, hroot, hid, rfl, hmatched,
      hmatched ▸ hmoved⟩

theorem group_many (hmoved : names.filter (candidates.contains ·) = moved)
    (hothers : names.filter (!candidates.contains ·) = others) (hmany : 2 ≤ moved.length) :
    ∃ new, (t.perform (.group block candidates)).answer = .ok (.grouped (some new)) ∧
      t.Gathered (t.after (.group block candidates)) block new moved others ∧
      let back := Edit.ungroup new moved
      let u := t.run [.group block candidates, back]
      ((t.after (.group block candidates)).perform back).answer = .ok (.flag true) ∧
        t.Reordered u block (others ++ moved) ∧
        (moved <:+ names → u.snapshot u.root = t.snapshot t.root) := by
  obtain ⟨frames, head, children, first, second, rest, hroot, rfl, rfl, hmatched, rfl⟩ :=
    h.exists_matched hnames hmoved hmany
  have hsuffix := filter_append_of_suffix candidates children
  rw [hmoved, hmatched] at hsuffix
  rw [List.filter_map] at hothers
  subst hothers
  refine ⟨o.slots.take.1, h.answer_group hroot hmatched, ?_, ?_⟩
  · refine h.gathered (h.after _) _ hmatched rfl hroot h.not_contains_take rfl ?_
    rw [h.root_after_group hroot hmatched rfl]
    exact Node.forgetful_plug_uncached (⟨head, _, []⟩ :: frames) rfl
  · intro back u
    obtain ⟨hanswer, hback⟩ := h.return_group hroot hmatched rfl
    have hreturned := h.run [.group head.id candidates, back]
    refine ⟨hanswer, h.reordered hreturned _ hmatched rfl hroot hback, fun hlast => ?_⟩
    rw [hsuffix hlast, ← hroot] at hback
    exact h.snapshot_root_eq hreturned hback

theorem ungroup_some (hmoved : names.filter (candidates.contains ·) = moved)
    (hleft : names.filter (!candidates.contains ·) = left) (hsome : moved ≠ [])
    (hblock : block ≠ t.root) :
    (t.perform (.ungroup block candidates)).answer = .ok (.flag true) ∧
      ∃ parent before after, t.parent block = .ok (some parent) ∧
        t.children parent = .ok (before ++ block :: after) ∧ block ∉ before ∧
        t.Lifted (t.after (.ungroup block candidates)) block parent moved left before after := by
  obtain ⟨frames, head, children, hroot, rfl, rfl⟩ := h.exists_plug_of_children hnames
  subst hmoved hleft
  rw [filter_names] at hsome ⊢
  rw [List.filter_map]
  cases frames with
  | nil =>
    rw [h.root, hroot] at hblock
    exact absurd rfl hblock
  | cons frame frames =>
    obtain ⟨hanswer, hafter⟩ := h.ungroup_block hroot rfl rfl (mt List.map_eq_nil_iff.mpr hsome)
    refine ⟨hanswer, frame.head.id, frame.before.map Node.id, frame.after.map Node.id, ?_, ?_, ?_,
      h.lifted (h.after _) _ rfl rfl hroot hafter⟩
    · have hentry : t.arena.get? head.id = _ := (h.includes hroot).get?_eq
      rw [Tree.parent, Tree.entry, hentry]
      rfl
    · have hframe : o.children frame.head.id = _ := Outline.children_plug h.nodup hroot
      rw [h.children_eq, hframe]
      exact congrArg Except.ok List.map_append
    · intro hmem
      obtain ⟨n, hn, hid⟩ := List.mem_map.mp hmem
      have hsibling := Node.sibling_ne (hroot ▸ h.nodup) (List.mem_append_left _ hn)
      exact hsibling hid

end Names

theorem regroups (h : Represents t o) : t.Regroups where
  failed hcause candidates := h.perform_children_error hcause candidates
  few hnames hfew := h.perform_group_few hnames hfew
  group hnames hmoved hothers hmany := h.group_many hnames hmoved hothers hmany
  none hnames hnone := h.perform_ungroup_none hnames hnone
  ungroup hnames hmoved hleft hsome hroot := h.ungroup_some hnames hmoved hleft hsome hroot

end Represents

namespace Tree

/-- In every tree that comes about by edits, grouping and ungrouping move just the candidates among
the children of a block. -/
theorem regroups_run (factory : OperatorFactory) (edits : List Edit) :
    ((ofFactory factory).run edits).Regroups :=
  (represents_run factory edits).regroups

/-- An empty block has no child left, yet ungrouping it does not remove it. -/
theorem not_removed_of_empty :
    let t := (ofFactory .standard).run [.add ⟨0, 0⟩ (.block .and [])]
    let candidates : List NodeId := []
    let u := t.after (.ungroup ⟨1, 0⟩ candidates)
    t.parent ⟨1, 0⟩ = .ok (some t.root) ∧
      ¬ (u.contains ⟨1, 0⟩ = false ↔
        ∃ names, t.children ⟨1, 0⟩ = .ok names ∧ names.filter (!candidates.contains ·) = []) := by
  intro t candidates u
  refine ⟨rfl, fun hremoved => ?_⟩
  have hgone : u.contains ⟨1, 0⟩ = false := hremoved.mpr ⟨[], rfl, rfl⟩
  revert hgone
  decide

end Tree

end EntityQuery
