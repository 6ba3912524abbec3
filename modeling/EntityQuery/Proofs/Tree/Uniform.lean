import EntityQuery.Proofs.Tree.Generations
import EntityQuery.Proofs.Tree.Interchange

/-!
# Regrouping in uniform blocks

A block is uniform if all its children have one logical operator. Whatever children of a uniform
block are grouped, and whatever children of a uniform block with that operator are moved out of it,
the filter of the tree stays the same.

* `Condition.alike_gather`, `Condition.alike_lift` — blocks before and after regrouping.
* `Tree.Uniform` — uniform blocks of a tree.
* `Outline.Step.alike_grouped`, `Outline.Step.alike_ungrouped` — the root before and after a step.
* `Tree.filtersLike_regrouped` — every tree that comes about by edits keeps its filter.
-/

namespace EntityQuery

namespace Condition

variable {op : Logical} {inner moved kept others : List Condition}

/-- Children move into a new block behind the others. -/
theorem alike_gather (logical : Logical) (hperm : inner.Perm (others ++ moved))
    (hinner : ∀ c ∈ inner, c.logical = op) :
    (block logical inner).Alike (block logical (others ++ [block op moved])) := by
  have hreorder := alike_reorder logical [] [] hperm hinner
  have hmoved : ∀ c ∈ moved, c.logical = op :=
    fun c hc => hinner c (hperm.mem_iff.mpr (List.mem_append_right _ hc))
  have hnest := alike_nest logical others [] hmoved
  rw [List.nil_append, List.nil_append, List.append_nil, List.append_nil] at hreorder
  rw [List.append_nil] at hnest
  exact hreorder.trans hnest

/-- Children of a block move in front of it. -/
theorem alike_lift (logical : Logical) (before after : List Condition)
    (hperm : inner.Perm (moved ++ kept)) (hinner : ∀ c ∈ inner, c.logical = op) :
    (block logical (before ++ block op inner :: after)).Alike
      (block logical (before ++ moved ++ block op kept :: after)) := by
  have hflat := alike_nest logical before after hinner
  have hreorder := alike_reorder logical before after hperm hinner
  have hkept : ∀ c ∈ kept, c.logical = op :=
    fun c hc => hinner c (hperm.mem_iff.mpr (List.mem_append_right _ hc))
  have hnest := alike_nest logical (before ++ moved) after hkept
  rw [← List.append_assoc before] at hreorder
  exact (hflat.symm.trans hreorder).trans hnest

end Condition

/-- All children of a block have one logical operator. -/
def Tree.Uniform (t : Tree) (block : NodeId) (op : Logical) : Prop :=
  ∀ child, t.IsChild child block → (t.entry child).map (·.logical) = .ok op

namespace Outline

variable {o : Outline} {x : Outcome EditAnswer} {block : NodeId} {candidates : List NodeId}
  {op : Logical}

/-- All children of a block have one logical operator. -/
def Uniform (o : Outline) (block : NodeId) (op : Logical) : Prop :=
  ∀ frames head children, o.root = .plug frames (.block head children) → head.id = block →
    ∀ c ∈ children.map Node.toCondition, c.logical = op

/-- Grouping in a uniform block leaves a root that is alike. -/
theorem Step.alike_grouped (hstep : o.Step (.group block candidates) x)
    (huniform : o.Uniform block op) : o.root.toCondition.Alike x.outline.root.toCondition := by
  cases hstep with
  | idle _ _ => exact Condition.Alike.refl _
  | added _ _ hchange _ => cases hchange
  | refilled after _ hchange hedit _ _ =>
    cases hedit
    exact absurd hchange (by decide)
  | @grouped frames head children _ first second others id slots hroot hmatched htake =>
    have hchildren := huniform frames head children hroot rfl
    have hfirst : first.head.logical = op := by
      have hmem : first ∈ children := (List.mem_filter.mp (hmatched ▸ List.mem_cons_self)).1
      rw [← first.logical_toCondition]
      exact hchildren _ (List.mem_map_of_mem hmem)
    have hperm : children.Perm
        (children.filter (!candidates.contains ·.id) ++ first :: second :: others) := by
      rw [← hmatched]
      exact (List.perm_append_comm.trans (List.filter_append_perm _ children)).symm
    have halike := Condition.alike_gather head.logical
      (List.map_append ▸ hperm.map Node.toCondition) hchildren
    rw [changed, Node.toCondition_touch, hroot]
    refine Node.alike_plug frames ?_
    rw [Node.toCondition, Node.toCondition, Node.allToCondition_eq_map,
      Node.allToCondition_eq_map, List.map_append, List.map_singleton, Node.toCondition, hfirst,
      Node.allToCondition_eq_map]
    exact halike

/-- Moving children out of a uniform block that joins as they do leaves a root that is alike. -/
theorem Step.alike_ungrouped (hstep : o.Step (.ungroup block candidates) x)
    (hblock : ∀ frames n, o.root = .plug frames n → n.id = block → n.head.logical = op)
    (huniform : o.Uniform block op) : o.root.toCondition.Alike x.outline.root.toCondition := by
  cases hstep with
  | idle _ _ => exact Condition.Alike.refl _
  | added _ _ hchange _ => cases hchange
  | refilled after _ hchange hedit _ _ =>
    cases hedit
    exact absurd hchange (by decide)
  | @emptied frame frames head children _ hroot hsome hall =>
    have hchildren := huniform (frame :: frames) head children hroot rfl
    have hhead : head.logical = op := hblock (frame :: frames) _ hroot rfl
    have halike := Condition.alike_nest frame.head.logical (frame.before.map Node.toCondition)
      (frame.after.map Node.toCondition) hchildren
    rw [changed, Node.toCondition_touch, hroot]
    refine Node.alike_plug frames ?_
    rw [Node.toCondition_attach_eq, Node.toCondition, Node.toCondition,
      Node.allToCondition_eq_map, Node.allToCondition_eq_map, List.map_append, List.map_append,
      hhead]
    exact halike.symm
  | @kept frame frames head children moved kept _ hroot hmoved hkept hsome hrest =>
    have hchildren := huniform (frame :: frames) head children hroot rfl
    have hhead : head.logical = op := hblock (frame :: frames) _ hroot rfl
    have hperm : children.Perm (moved ++ kept) := by
      rw [← hmoved, ← hkept]
      exact (List.filter_append_perm _ children).symm
    have halike := Condition.alike_lift frame.head.logical (frame.before.map Node.toCondition)
      (frame.after.map Node.toCondition)
      (List.map_append ▸ hperm.map Node.toCondition) hchildren
    rw [changed, Node.toCondition_touch, hroot]
    refine Node.alike_plug frames ?_
    rw [Node.toCondition_attach_eq, Node.toCondition_attach_eq, Node.toCondition,
      Node.toCondition, Node.allToCondition_eq_map, Node.allToCondition_eq_map, List.map_append,
      hhead]
    exact halike

end Outline

namespace Represents

variable {t : Tree} {o : Outline}

theorem uniform (h : Represents t o) {block : NodeId} {op : Logical} (ht : t.Uniform block op) :
    o.Uniform block op := by
  rintro frames head children hroot rfl c hc
  obtain ⟨n, hn, rfl⟩ := List.mem_map.mp hc
  have hchild := ht n.id ((h.isChild_iff hroot).mpr (List.mem_map_of_mem hn))
  rw [h.logical_child hroot hn] at hchild
  exact Except.ok.inj hchild

/-- An edit keeps the filter of a tree if it leaves a root that is alike. -/
theorem filtersLike_after (h : Represents t o) (hcoherent : o.root.Coherent) {e : Edit}
    (halike : ∀ x, o.Step e x → o.root.toCondition.Alike x.outline.root.toCondition) :
    t.FiltersLike (t.after e) := by
  refine h.filtersLike (h.after e) hcoherent (h.coherent_run hcoherent [e]) ?_
  rw [Outline.after]
  cases hx : o.perform e with
  | error cause => exact Condition.Alike.refl _
  | ok x => exact halike x (Outline.step_perform h.nodup hx)

end Represents

namespace Tree

/-- In every tree that comes about by edits, grouping in a uniform block keeps the filter of the
tree. So does moving children out of a uniform block that has the operator of its children; its
siblings may have others. -/
theorem filtersLike_regrouped (factory : OperatorFactory) (edits : List Edit) :
    let t := (ofFactory factory).run edits
    ∀ block candidates op, t.Uniform block op →
      t.FiltersLike (t.after (.group block candidates)) ∧
        ((t.entry block).map (·.logical) = .ok op →
          t.FiltersLike (t.after (.ungroup block candidates))) := by
  intro t block candidates op huniform
  have hrep := represents_run factory edits
  have hcoherent := coherent_run factory edits
  refine ⟨?_, fun hblock => ?_⟩
  · exact hrep.filtersLike_after hcoherent fun x hstep =>
      hstep.alike_grouped (hrep.uniform huniform)
  · refine hrep.filtersLike_after hcoherent fun x hstep =>
      hstep.alike_ungrouped ?_ (hrep.uniform huniform)
    rintro frames n hroot rfl
    rw [hrep.logical_entry hroot] at hblock
    exact Except.ok.inj hblock

/-- Two alternatives are grouped, and one of them is moved out. -/
theorem filtersLike_regrouped_alternatives :
    let active : Leaf := ⟨⟨"active", .bool, false, "User", 0⟩, .comparison .equal, .bool true⟩
    let vip : Leaf := ⟨⟨"vip", .bool, false, "User", 1⟩, .comparison .equal, .bool true⟩
    let t := (ofFactory .standard).run [.add ⟨0, 0⟩ (.block .or [.leaf .or active, .leaf .or vip])]
    t.Uniform ⟨1, 0⟩ .or ∧ (t.entry ⟨1, 0⟩).map (·.logical) = .ok .or ∧
      t.FiltersLike (t.after (.group ⟨1, 0⟩ [⟨3, 0⟩, ⟨2, 0⟩])) ∧
      t.FiltersLike (t.after (.ungroup ⟨1, 0⟩ [⟨3, 0⟩])) := by
  intro active vip t
  have huniform : t.Uniform ⟨1, 0⟩ .or := by
    rintro child ⟨e, he, hchild⟩
    cases he
    have hmem : child ∈ [⟨2, 0⟩, ⟨3, 0⟩] := hchild
    obtain rfl | rfl := List.mem_pair.mp hmem
    · rfl
    · rfl
  have hblock : (t.entry ⟨1, 0⟩).map (·.logical) = .ok .or := rfl
  have hregrouped := filtersLike_regrouped .standard
    [.add ⟨0, 0⟩ (.block .or [.leaf .or active, .leaf .or vip])]
  exact ⟨huniform, hblock, (hregrouped ⟨1, 0⟩ [⟨3, 0⟩, ⟨2, 0⟩] .or huniform).1,
    (hregrouped ⟨1, 0⟩ [⟨3, 0⟩] .or huniform).2 hblock⟩

end Tree

end EntityQuery
