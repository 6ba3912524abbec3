import EntityQuery.Proofs.Tree.Unknown
import EntityQuery.Proofs.Tree.Recompiling

/-!
# Adding and removing are inverse

A detached condition that is added to a block comes out again as it went in, and leaves the tree as
it was, up to remembered expressions and the generations of the slots that it used.

* `Node.toCondition_plant` — planting keeps the detached condition.
* `Represents.entry_forgetful_eq` — outlines that differ in what they remember have the same
  entries.
* `Tree.Restores` — what adding and removing a condition does to a tree.
* `Tree.restores_run` — every tree that comes about by edits is restored.
-/

namespace EntityQuery

namespace Node

mutual

/-- The node of a detached condition, detached again, is that condition. -/
theorem toCondition_plant (s : Slots) (c : Condition) : (plant s c).1.toCondition = c := by
  cases c with
  | leaf logical content => rfl
  | block logical children =>
    rw [plant, toCondition, allToCondition_eq_map]
    exact congrArg _ (map_toCondition_plantAll _ children)

theorem map_toCondition_plantAll (s : Slots) (cs : List Condition) :
    (plantAll s cs).1.map toCondition = cs := by
  cases cs with
  | nil => rfl
  | cons c cs =>
    rw [plantAll, List.map_cons, toCondition_plant s c, map_toCondition_plantAll _ cs]

end

theorem toCondition_withHead_uncached (n : Node) :
    (n.withHead Head.uncached).toCondition = n.toCondition := by
  cases n <;> rfl

end Node

theorem Tree.entry_forgetful (t : Tree) (id : NodeId) :
    t.forgetful.entry id = (t.entry id).map Entry.forgetful := by
  rw [entry, entry, forgetful, Arena.get?_forgetful]
  cases t.arena.get? id <;> rfl

namespace Represents

variable {t u : Tree} {o p : Outline}

/-- Trees whose outlines only differ in what they remember have entries that only differ in that. -/
theorem entry_forgetful_eq (h : Represents t o) (hu : Represents u p)
    (hroot : p.root.forgetful = o.root.forgetful) (id : NodeId) :
    (u.entry id).map Entry.forgetful = (t.entry id).map Entry.forgetful := by
  have hget : u.forgetful.arena.get? id = t.forgetful.arena.get? id := by
    ext e
    rw [hu.forgetful.stores.mem, h.forgetful.stores.mem]
    simp only [hroot]
  rw [← Tree.entry_forgetful, ← Tree.entry_forgetful, Tree.entry, Tree.entry, hget]

/-- Such trees have the same conditions below their roots. -/
theorem snapshot_root_eq (h : Represents t o) (hu : Represents u p)
    (hroot : p.root.forgetful = o.root.forgetful) : u.snapshot u.root = t.snapshot t.root := by
  rw [hu.snapshot_eq, hu.node_root, h.snapshot_eq, h.node_root]
  show Except.ok p.root.toCondition = Except.ok o.root.toCondition
  rw [← p.root.toCondition_forgetful, hroot, o.root.toCondition_forgetful]

theorem size_eq_of_forgetful (h : Represents t o) (hu : Represents u p)
    (hroot : p.root.forgetful = o.root.forgetful) : u.size = t.size := by
  have hsize := h.size_add_one.1
  rw [← Node.ids_forgetful, ← hroot, Node.ids_forgetful, ← hu.size_add_one.1] at hsize
  omega

end Represents

/-- A detached condition is appended to a block with some children, and gets a name under which it
is found and under which it is taken out again. After that the tree has the conditions that it had
before, with the same links, contents and listeners. -/
structure Tree.Restores (t : Tree) (block : NodeId) (names : List NodeId) (c : Condition)
    (id : NodeId) : Prop where
  answer_add : (t.perform (.add block c)).answer = .ok (.created id)
  snapshot_add : (t.after (.add block c)).snapshot id = .ok c
  children_add : (t.after (.add block c)).children block = .ok (names ++ [id])
  size_add : (t.after (.add block c)).size = t.size + c.nodeCount
  answer_remove : ((t.after (.add block c)).perform (.remove id)).answer = .ok (.removed c)
  snapshot_remove : (t.run [.add block c, .remove id]).snapshot (t.run [.add block c, .remove id]).root
    = t.snapshot t.root
  size_remove : (t.run [.add block c, .remove id]).size = t.size
  entry_remove (other : NodeId) : ((t.run [.add block c, .remove id]).entry other).map Entry.forgetful
    = (t.entry other).map Entry.forgetful

namespace Represents

variable {t : Tree} {o : Outline} {frames : List NodeFrame} {head : Head} {children : List Node}
  {n : Node} {c : Condition} {slots : Slots}

/-- A condition that is added stands behind the children of its block. -/
theorem root_after_add (h : Represents t o) (hroot : o.root = .plug frames (.block head children))
    (hplant : Node.plant o.slots c = (n, slots)) :
    (o.after (.add head.id c)).root = (Node.plug (⟨head, children, []⟩ :: frames) n).touch n.id := by
  rw [Outline.after, Outline.perform, Outline.add_plug h.nodup hroot hplant]
  rfl

/-- What is remembered above it is forgotten. -/
theorem plug_after_add (h : Represents t o) (hroot : o.root = .plug frames (.block head children))
    (hplant : Node.plant o.slots c = (n, slots)) :
    (o.after (.add head.id c)).root =
      .plug (⟨head.uncached, children, []⟩ :: frames.map NodeFrame.uncached)
        (n.withHead Head.uncached) := by
  have hafter := h.root_after_add hroot hplant
  have hnodup := (h.after (.add head.id c)).nodup
  rw [hafter, Node.ids_touch] at hnodup
  rw [hafter, Node.touch_plug_self hnodup]
  rfl

/-- The outline after the condition is removed again only differs in what it remembers. -/
theorem forgetful_after_remove (h : Represents t o)
    (hroot : o.root = .plug frames (.block head children))
    (hplant : Node.plant o.slots c = (n, slots)) :
    (o.run [.add head.id c, .remove n.id]).root.forgetful = o.root.forgetful := by
  have hadded := h.plug_after_add hroot hplant
  have hid : (n.withHead Head.uncached).id = n.id := by cases n <;> rfl
  have hremove := Outline.remove_plug (h.after (.add head.id c)).nodup hadded
  rw [hid, List.append_nil] at hremove
  have hafter : (o.run [.add head.id c, .remove n.id]).root =
      (Node.plug (frames.map NodeFrame.uncached) (.block head.uncached children)).touch head.id := by
    show ((o.after (.add head.id c)).after (.remove n.id)).root = _
    rw [Outline.after, Outline.perform, hremove]
    rfl
  have htouch : Node.plug (frames.map NodeFrame.uncached) (.block head.uncached children) =
      o.root.touch head.id := by
    have hnodup := h.nodup
    rw [hroot] at hnodup ⊢
    exact (Node.touch_plug_self (n := .block head children) hnodup).symm
  rw [hafter, Node.forgetful_touch, htouch, Node.forgetful_touch]

theorem restores (h : Represents t o) (hroot : o.root = .plug frames (.block head children))
    (hplant : Node.plant o.slots c = (n, slots)) :
    t.Restores head.id (children.map Node.id) c n.id := by
  have hadd := h.after (.add head.id c)
  have hremove := h.run [.add head.id c, .remove n.id]
  have hforgetful := h.forgetful_after_remove hroot hplant
  have hadded := h.plug_after_add hroot hplant
  have hid : (n.withHead Head.uncached).id = n.id := by cases n <;> rfl
  have hc : (n.withHead Head.uncached).toCondition = c := by
    have hself := Node.toCondition_plant o.slots c
    rw [hplant] at hself
    rw [Node.toCondition_withHead_uncached, hself]
  constructor
  case answer_add =>
    rw [h.answer_perform, Outline.perform, Outline.add_plug h.nodup hroot hplant]
    rfl
  case snapshot_add =>
    rw [hadd.snapshot_eq, ← hid, Outline.node_plug hadd.nodup hadded]
    exact congrArg Except.ok hc
  case children_add =>
    have hblock : (o.after (.add head.id c)).children head.uncached.id = .ok _ :=
      Outline.children_plug hadd.nodup hadded
    rw [hadd.children_eq, show (o.after _).children head.id = _ from hblock]
    show Except.ok ((children ++ [n.withHead Head.uncached]).map Node.id) = _
    rw [List.map_append, List.map_singleton, hid]
  case size_add =>
    have hbefore := h.size_add_one.1
    have hafter := hadd.size_add_one.1
    rw [hroot, (Node.ids_plug_perm frames _).length_eq] at hbefore
    rw [h.root_after_add hroot hplant, Node.ids_touch,
      (Node.ids_plug_perm (⟨head, children, []⟩ :: frames) n).length_eq] at hafter
    have hcount : c.nodeCount = n.ids.length := by
      rw [← hc, Node.toCondition_withHead_uncached, Node.nodeCount_toCondition]
    simp only [Node.frameIds_cons, NodeFrame.ids, Node.ids_block, List.length_append,
      List.length_cons, List.append_nil] at hbefore hafter
    omega
  case answer_remove =>
    have hremoved := Outline.remove_plug hadd.nodup hadded
    rw [hid, hc] at hremoved
    rw [hadd.answer_perform, Outline.perform, hremoved]
    rfl
  case snapshot_remove => exact h.snapshot_root_eq hremove hforgetful
  case size_remove => exact h.size_eq_of_forgetful hremove hforgetful
  case entry_remove => exact h.entry_forgetful_eq hremove hforgetful

/-- A condition comes out by removing it as it is seen just before. -/
theorem answer_remove (h : Represents t o) {id : NodeId} (hid : t.contains id) (hne : id ≠ t.root) :
    ∃ c, t.snapshot id = .ok c ∧ (t.perform (.remove id)).answer = .ok (.removed c) := by
  obtain ⟨frames, n, hroot, rfl, -, hn⟩ | ⟨-, -, hnone⟩ := h.known_or_unknown id
  · refine ⟨n.toCondition, ?_, ?_⟩
    · rw [h.snapshot_eq, hn]
      rfl
    · cases frames with
      | nil => exact absurd (by rw [h.root, hroot, Node.plug]) hne
      | cons frame frames =>
        rw [h.answer_perform, Outline.perform, Outline.remove_plug h.nodup hroot]
        rfl
  · rw [Tree.contains, hnone] at hid
    cases hid

end Represents

namespace Tree

/-- In every tree that comes about by edits, a condition that is added to a block comes out again as
it went in, and leaves the tree as it was. Every condition below the root comes out as it is. -/
theorem restores_run (factory : OperatorFactory) (edits : List Edit) :
    let t := (ofFactory factory).run edits
    (∀ block names, t.children block = .ok names → ∀ c, ∃ id, t.Restores block names c id) ∧
      ∀ id, t.contains id → id ≠ t.root →
        ∃ c, t.snapshot id = .ok c ∧ (t.perform (.remove id)).answer = .ok (.removed c) := by
  intro t
  have hrep := represents_run factory edits
  refine ⟨?_, fun id hid hne => hrep.answer_remove hid hne⟩
  intro block names hnames c
  rw [hrep.children_eq] at hnames
  cases hchildren : ((Outline.ofFactory factory).run edits).children block with
  | error cause =>
    rw [hchildren] at hnames
    cases hnames
  | ok children =>
    rw [hchildren] at hnames
    cases hnames
    obtain ⟨frames, head, hroot, rfl⟩ := Outline.exists_plug_of_children hrep.nodup hchildren
    exact ⟨_, hrep.restores hroot rfl⟩

/-- A block with an empty block in it is added beside such a block. -/
theorem restores_run_nested :
    let c : Condition := .block .or [.block .and []]
    let t := (ofFactory .standard).run [.add ⟨0, 0⟩ c]
    t.children ⟨0, 0⟩ = .ok [⟨1, 0⟩] ∧ (∃ id, t.Restores ⟨0, 0⟩ [⟨1, 0⟩] c id) ∧
      t.contains ⟨1, 0⟩ ∧ ⟨1, 0⟩ ≠ t.root ∧
      ∃ d, t.snapshot ⟨1, 0⟩ = .ok d ∧ (t.perform (.remove ⟨1, 0⟩)).answer = .ok (.removed d) := by
  intro c t
  have hchildren : t.children ⟨0, 0⟩ = .ok [⟨1, 0⟩] := rfl
  have hcontains : t.contains ⟨1, 0⟩ := by decide
  have hne : ⟨1, 0⟩ ≠ t.root := by decide
  obtain ⟨hadd, hremove⟩ := restores_run .standard [.add ⟨0, 0⟩ c]
  exact ⟨hchildren, hadd _ _ hchildren c, hcontains, hne, hremove _ hcontains hne⟩

end Tree

end EntityQuery
