import EntityQuery.Proofs.Tree.Interchange
import EntityQuery.Proofs.Tree.Regrouping
import EntityQuery.Proofs.Tree.Wording

/-!
# Grouping and ungrouping keep the filter

Grouped children that are all moved out of their new block stand behind the other children. A child
that has passed another one with the same logical operator makes no difference.

* `Condition.alike_pass`, `Condition.alike_partition` — children that pass others.
* `Tree.Passes` — grouped children pass others with their logical operator only.
* `Tree.Returns` — grouped children come back; `Tree.returns_run` for every tree that comes about by
  edits.
* `Tree.not_filtersLike_returned` — not so if a child passes one with another operator.
-/

namespace EntityQuery

namespace Condition

/-- A child passes others with its logical operator. Those without a leaf do not count. -/
theorem alike_pass (logical : Logical) (before after : List Condition) {c : Condition}
    {passed : List Condition}
    (h : ∀ d ∈ passed, c.hasLeaf → d.hasLeaf → c.logical = d.logical) :
    (block logical (before ++ c :: passed ++ after)).Alike
      (block logical (before ++ passed ++ c :: after)) := by
  cases hc : c.hasLeaf with
  | false =>
    have hcs : (before ++ c :: passed ++ after).filter hasLeaf =
        (before ++ passed).filter hasLeaf ++ [] ++ after.filter hasLeaf := by
      simp [hc]
    have hds : (before ++ passed ++ c :: after).filter hasLeaf =
        (before ++ passed).filter hasLeaf ++ [] ++ after.filter hasLeaf := by
      simp [hc]
    have hnone : ∀ d ∈ ([] : List Condition), d.logical = c.logical := List.forall_mem_nil _
    exact alike_exchange logical hcs hds (List.Perm.refl []) hnone
  | true =>
    have hcs : (before ++ c :: passed ++ after).filter hasLeaf =
        before.filter hasLeaf ++ (c :: passed.filter hasLeaf) ++ after.filter hasLeaf := by
      simp [hc]
    have hds : (before ++ passed ++ c :: after).filter hasLeaf =
        before.filter hasLeaf ++ (passed.filter hasLeaf ++ [c]) ++ after.filter hasLeaf := by
      simp [hc]
    have hsame : ∀ d ∈ c :: passed.filter hasLeaf, d.logical = c.logical := by
      refine List.forall_mem_cons.mpr ⟨rfl, fun d hd => ?_⟩
      obtain ⟨hmem, hleaf⟩ := List.mem_filter.mp hd
      exact (h d hmem hc hleaf).symm
    exact alike_exchange logical hcs hds (List.perm_append_singleton _ _).symm hsame

/-- Some children pass all others, if they pass others with their logical operator only. -/
theorem alike_partition {α : Type} (f : α → Condition) (p : α → Bool) (logical : Logical)
    (before : List Condition) {xs : List α}
    (h : xs.Pairwise fun x y =>
      p x → !p y → (f x).hasLeaf → (f y).hasLeaf → (f x).logical = (f y).logical) :
    (block logical (before ++ xs.map f)).Alike
      (block logical (before ++ (xs.filter (!p ·) ++ xs.filter p).map f)) := by
  induction xs generalizing before with
  | nil => exact .refl _
  | cons x xs ih =>
    rw [List.pairwise_cons] at h
    have hrest := ih (before ++ [f x]) h.2
    rw [List.append_assoc, List.append_assoc] at hrest
    cases hx : p x with
    | false =>
      rw [List.filter_cons_of_pos (by rw [hx]; rfl), List.filter_cons_of_neg (by rw [hx]; nofun)]
      exact hrest
    | true =>
      -- the first child stays in front until the others have their order, then it passes some
      have hpassed : ∀ d ∈ (xs.filter (!p ·)).map f,
          (f x).hasLeaf → d.hasLeaf → (f x).logical = d.logical := by
        intro d hd
        obtain ⟨y, hy, rfl⟩ := List.mem_map.mp hd
        obtain ⟨hmem, hother⟩ := List.mem_filter.mp hy
        exact h.1 y hmem hx hother
      have hpass := alike_pass logical before ((xs.filter p).map f) hpassed
      rw [List.append_assoc before (f x :: _)] at hpass
      rw [List.map_append] at hrest
      rw [List.filter_cons_of_neg (by rw [hx]; nofun), List.filter_cons_of_pos hx, List.map_append,
        ← List.append_assoc]
      exact hrest.trans hpass

end Condition

namespace Node

/-- A block in some surroundings has a leaf as before if another node with a leaf as before comes in
the place of one. -/
theorem hasLeaf_plug (frames : List NodeFrame) {m n : Node}
    (h : m.toCondition.hasLeaf = n.toCondition.hasLeaf) :
    (plug frames m).toCondition.hasLeaf = (plug frames n).toCondition.hasLeaf := by
  induction frames generalizing m n with
  | nil => exact h
  | cons frame frames ih =>
    refine ih ?_
    rw [toCondition_attach_eq, toCondition_attach_eq, Condition.hasLeaf, Condition.hasLeaf,
      Condition.anyHasLeaf_eq_any, Condition.anyHasLeaf_eq_any, List.any_append, List.any_append,
      List.any_cons, List.any_cons, h]

theorem hasLeaf_block_of_perm (head : Head) {children others : List Node}
    (h : children.Perm others) :
    (block head children).toCondition.hasLeaf = (block head others).toCondition.hasLeaf := by
  rw [toCondition, toCondition, Condition.hasLeaf, Condition.hasLeaf, Condition.anyHasLeaf_eq_any,
    Condition.anyHasLeaf_eq_any, allToCondition_eq_map, allToCondition_eq_map,
    (h.map toCondition).any_eq]

end Node

namespace Tree

/-- Whether there is a leaf at a condition or below it. -/
def hasLeaf (t : Tree) (id : NodeId) : Bool := (t.firstLeaf? id).isSome

/-- Candidates that stand before others have their logical operator, unless one of both has no
leaf. -/
def Passes (t : Tree) (names candidates : List NodeId) : Prop :=
  names.Pairwise fun id other => id ∈ candidates → other ∉ candidates →
    t.hasLeaf id → t.hasLeaf other → (t.entry id).map (·.logical) = (t.entry other).map (·.logical)

theorem children_of_seen {t : Tree} {id : NodeId} {e : Entry} {names : List NodeId}
    (h : t.seen id = .ok e) (hbody : e.body = .block names) : t.children id = .ok names := by
  rw [seen] at h
  cases he : t.entry id with
  | error cause =>
    rw [he] at h
    cases h
  | ok f =>
    rw [he] at h
    cases h
    have hbody : f.body = .block names := hbody
    rw [children, he]
    simp only [hbody]

end Tree

/-- Grouped children are all moved out of their new block and stand behind the other children of
their block. The tree has a filter if it had one, and it is the same filter if no child has passed
one with another logical operator. -/
structure Tree.Returns (t : Tree) (block : NodeId) (names candidates moved : List NodeId)
    (new : NodeId) : Prop where
  answer_group : (t.perform (.group block candidates)).answer = .ok (.grouped (some new))
  children_group : (t.after (.group block candidates)).children new = .ok moved
  answer_ungroup :
    ((t.after (.group block candidates)).perform (.ungroup new moved)).answer = .ok (.flag true)
  children_ungroup : (t.run [.group block candidates, .ungroup new moved]).children block =
    .ok (names.filter (!candidates.contains ·) ++ moved)
  isSome_filter? : (t.run [.group block candidates, .ungroup new moved]).filter?.map Option.isSome =
    t.filter?.map Option.isSome
  filtersLike (hpasses : t.Passes names candidates) :
    t.FiltersLike (t.run [.group block candidates, .ungroup new moved])

namespace Represents

variable {t : Tree} {o : Outline} {frames : List NodeFrame}

theorem hasLeaf_plug (h : Represents t o) {n : Node} (hroot : o.root = Node.plug frames n) :
    t.hasLeaf n.id = n.toCondition.hasLeaf := by
  have hnodup := h.nodup
  rw [hroot] at hnodup
  rw [Tree.hasLeaf, h.firstLeaf?_eq, hroot, Node.find?_plug_self hnodup, Option.bind_some,
    n.isSome_firstLeaf?]

/-- Whether a tree has a filter depends on whether its root has a leaf. -/
theorem isSome_filter? (h : Represents t o) (hcoherent : o.root.Coherent) :
    t.filter?.map Option.isSome = .ok o.root.toCondition.hasLeaf := by
  rw [h.filter?_eq hcoherent]
  cases o.root.toCondition.hasLeaf <;> rfl

/-- The children of a block pass others like their nodes. -/
theorem passes (h : Represents t o) {head : Head} {children : List Node}
    {candidates : List NodeId} (hroot : o.root = Node.plug frames (.block head children))
    (hpasses : t.Passes (children.map Node.id) candidates) :
    children.Pairwise fun m n => candidates.contains m.id → !candidates.contains n.id →
      m.toCondition.hasLeaf → n.toCondition.hasLeaf →
        m.toCondition.logical = n.toCondition.logical := by
  refine (List.pairwise_map.mp hpasses).imp_of_mem ?_
  intro m n hm hn hpass hmoved hother hmleaf hnleaf
  have hplug {c : Node} (hc : c ∈ children) : ∃ frames, o.root = Node.plug frames c := by
    obtain ⟨before, after, rfl⟩ := List.append_of_mem hc
    exact ⟨⟨head, before, after⟩ :: frames, hroot⟩
  obtain ⟨mframes, hmroot⟩ := hplug hm
  obtain ⟨nframes, hnroot⟩ := hplug hn
  have hother : n.id ∉ candidates := by
    rw [← List.contains_iff_mem]
    simpa using hother
  have hlogical := hpass (List.contains_iff_mem.mp hmoved) hother
    ((h.hasLeaf_plug hmroot).trans hmleaf) ((h.hasLeaf_plug hnroot).trans hnleaf)
  rw [h.logical_child hroot hm, h.logical_child hroot hn] at hlogical
  exact Except.ok.inj hlogical

theorem returns (h : Represents t o) (hcoherent : o.root.Coherent) {head : Head}
    {children : List Node} {first second : Node} {rest : List Node} {candidates : List NodeId}
    (hroot : o.root = .plug frames (.block head children))
    (hmatched : children.filter (candidates.contains ·.id) = first :: second :: rest) :
    t.Returns head.id (children.map Node.id) candidates ((first :: second :: rest).map Node.id)
      o.slots.take.1 := by
  obtain ⟨hback, hforgetful⟩ := h.return_group hroot hmatched rfl
  have hgroup := h.after (.group head.id candidates)
  let edits : List Edit :=
    [.group head.id candidates, .ungroup o.slots.take.1 ((first :: second :: rest).map Node.id)]
  have hrun := h.run edits
  have hcoherent' := h.coherent_run hcoherent edits
  have hcondition := congrArg Node.toCondition hforgetful
  rw [Node.toCondition_forgetful, Node.toCondition_forgetful] at hcondition
  constructor
  case answer_group => exact h.answer_group hroot hmatched
  case children_group =>
    have hnew : (o.after (.group head.id candidates)).children o.slots.take.1 = .ok _ :=
      Outline.children_plug hgroup.nodup (h.root_after_group hroot hmatched rfl)
    rw [hgroup.children_eq, hnew]
    rfl
  case answer_ungroup => exact hback
  case children_ungroup =>
    rw [List.filter_map]
    exact Tree.children_of_seen (hrun.seen_plug hforgetful) (congrArg Body.block List.map_append)
  case isSome_filter? =>
    have hperm : (children.filter (!candidates.contains ·.id) ++ first :: second :: rest).Perm
        children := by
      rw [← hmatched]
      exact List.perm_append_comm.trans (List.filter_append_perm _ children)
    rw [hrun.isSome_filter? hcoherent', h.isSome_filter? hcoherent, hcondition, hroot]
    exact congrArg Except.ok (Node.hasLeaf_plug frames (Node.hasLeaf_block_of_perm head hperm))
  case filtersLike =>
    intro hpasses
    refine h.filtersLike hrun hcoherent hcoherent' ?_
    rw [hcondition, hroot, ← hmatched]
    refine Node.alike_plug frames ?_
    rw [Node.toCondition, Node.toCondition, Node.allToCondition_eq_map, Node.allToCondition_eq_map]
    exact Condition.alike_partition Node.toCondition (candidates.contains ·.id) head.logical []
      (h.passes hroot hpasses)

end Represents

namespace Tree

/-- In every tree that comes about by edits, grouping two or more children and moving them all out
again keeps the filter, if grouped children pass others with their logical operator only. -/
theorem returns_run (factory : OperatorFactory) (edits : List Edit) :
    let t := (ofFactory factory).run edits
    ∀ block names candidates moved, t.children block = .ok names →
      names.filter (candidates.contains ·) = moved → 2 ≤ moved.length →
        ∃ new, t.Returns block names candidates moved new := by
  intro t block names candidates moved hnames hmoved hmany
  have hrep : Represents t _ := represents_run factory edits
  obtain ⟨frames, head, children, first, second, rest, hroot, rfl, rfl, hmatched, rfl⟩ :=
    hrep.exists_matched hnames hmoved hmany
  exact ⟨_, hrep.returns (coherent_run factory edits) hroot hmatched⟩

/-- Of three alternatives the first and the last are grouped, and the first passes the second. -/
theorem returns_alternatives :
    let leaf (name : String) : Leaf :=
      ⟨⟨name, .bool, false, "User", 0⟩, .comparison .equal, .bool true⟩
    let t := (ofFactory .standard).run
      [.add ⟨0, 0⟩ (.block .and [.leaf .or (leaf "a"), .leaf .or (leaf "b"), .leaf .or (leaf "c")])]
    let names : List NodeId := [⟨2, 0⟩, ⟨3, 0⟩, ⟨4, 0⟩]
    let moved : List NodeId := [⟨2, 0⟩, ⟨4, 0⟩]
    t.children ⟨1, 0⟩ = .ok names ∧ names.filter (moved.contains ·) = moved ∧ 2 ≤ moved.length ∧
      t.Passes names moved ∧ ∃ new, t.Returns ⟨1, 0⟩ names moved moved new := by
  refine ⟨rfl, rfl, Nat.le_refl 2, ?_, returns_run _ _ _ _ _ _ rfl rfl (Nat.le_refl 2)⟩
  refine .cons (List.forall_mem_cons.mpr ⟨fun _ _ _ _ => rfl, ?_⟩) (.cons ?_ (.cons ?_ .nil))
  · exact List.forall_mem_singleton.mpr fun _ hother => absurd (by decide) hother
  · exact List.forall_mem_singleton.mpr fun hid => absurd hid (by decide)
  · exact List.forall_mem_nil _

/-- Of `a || b && c` the first two are grouped and moved out again. They pass the third, which has
another logical operator than the first two, and where only `b` is true the filter is true now. -/
theorem not_filtersLike_returned :
    let leaf (name : String) : Leaf :=
      ⟨⟨name, .bool, false, "User", 0⟩, .comparison .equal, .bool true⟩
    let t := (ofFactory .standard).run
      [.add ⟨0, 0⟩ (.block .and [.leaf .and (leaf "a"), .leaf .or (leaf "b"), .leaf .and (leaf "c")])]
    let group := Edit.group ⟨1, 0⟩ [⟨2, 0⟩, ⟨3, 0⟩]
    (t.perform group).answer = .ok (.grouped (some ⟨5, 0⟩)) ∧
      (t.after group).children ⟨5, 0⟩ = .ok [⟨2, 0⟩, ⟨3, 0⟩] ∧
      ¬ t.FiltersLike (t.run [group, .ungroup ⟨5, 0⟩ [⟨2, 0⟩, ⟨3, 0⟩]]) := by
  refine ⟨rfl, rfl, ?_⟩
  rintro ⟨filter?, hbefore, hafter⟩
  let r : Record := [("a", .bool false), ("b", .bool true), ("c", .bool false)]
  have hfalse : .ok (some false) = (Except.ok filter?).map (·.map (· r)) :=
    congrArg (·.map (·.map (· r))) hbefore
  have htrue : .ok (some true) = (Except.ok filter?).map (·.map (· r)) :=
    congrArg (·.map (·.map (· r))) hafter
  cases hfalse.trans htrue.symm

end Tree

end EntityQuery
