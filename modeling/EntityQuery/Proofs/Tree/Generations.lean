import EntityQuery.Proofs.Tree.Caching
import EntityQuery.Proofs.Tree.WellFormed

/-!
# Generations of slots

A name has left a tree when the condition that had it is gone. The generation of a slot counts how
often the slot was emptied, so that the name is not given again before the count is full.

* `Slots.Loses` — slots are given back, each of them once, or slots are taken.
* `Tree.Leaves` — how names leave a tree.
* `Represents.frees` — every edit gives back the slots of the names that leave, and no others.
* `Represents.leaves_iff` — the names that leave are those that are in use before an edit and no
  longer after it.
* `Tree.emptied` — how often a slot is emptied in the course of edits; `Represents.generation_run`
  for the generation after them.
-/

namespace EntityQuery

/-! ### Slots in use -/

namespace Slots

variable {s s' s'' : Slots} {gone : List Nat}

/-- A slot is in use. -/
def Holds (s : Slots) (index : Nat) : Prop := index < s.generations.length ∧ index ∉ s.free

/-- Some slots in use are given back, each of them once. All others in use stay in use, and only the
generations of those given back are counted up. -/
structure Loses (s : Slots) (gone : List Nat) (s' : Slots) : Prop where
  generation (index : Nat) : (s'.nameOf index).generation =
    (s.nameOf index).generation + if index ∈ gone then 1 else 0
  held {index : Nat} (h : index ∈ gone) : s.Holds index ∧ ¬ s'.Holds index
  kept {index : Nat} (h : s.Holds index) (hgone : index ∉ gone) : s'.Holds index

theorem loses_nothing (s : Slots) : s.Loses [] s where
  generation index := by simp
  held h := nomatch h
  kept h _ := h

theorem Loses.trans_nothing (h : s.Loses [] s') (h' : s'.Loses [] s'') : s.Loses [] s'' where
  generation index := by
    rw [h'.generation, h.generation]
    simp
  held h := nomatch h
  kept hindex hgone := h'.kept (h.kept hindex hgone) hgone

/-- A slot that is taken keeps its generation. -/
theorem loses_take (s : Slots) : s.Loses [] s.take.2 := by
  cases hfree : s.free with
  | nil =>
    refine ⟨fun index => ?_, fun h => (nomatch h), fun h _ => ?_⟩
    · simp only [take, hfree, nameOf, List.not_mem_nil, if_false, UInt32.add_zero,
        List.getElem?_append]
      split
      · rfl
      · rename_i hnew
        rw [List.getElem?_eq_none (Nat.not_lt.mp hnew), List.getElem?_singleton]
        split <;> rfl
    · simp only [take, hfree, Holds, List.length_append, List.not_mem_nil, not_false_iff, and_true]
      exact Nat.lt_succ_of_lt h.1
  | cons first free =>
    refine ⟨fun index => ?_, fun h => (nomatch h), fun h _ => ?_⟩
    · simp [take, hfree, nameOf]
    · simp only [take, hfree, Holds]
      exact ⟨h.1, fun hmem => h.2 (hfree ▸ List.mem_cons_of_mem _ hmem)⟩

mutual

theorem loses_plant (s : Slots) (c : Condition) : s.Loses [] (Node.plant s c).2 := by
  cases c with
  | leaf logical content => exact s.loses_take
  | block logical children => exact s.loses_take.trans_nothing (loses_plantAll _ children)

theorem loses_plantAll (s : Slots) (cs : List Condition) : s.Loses [] (Node.plantAll s cs).2 := by
  cases cs with
  | nil => exact s.loses_nothing
  | cons c cs => exact (loses_plant s c).trans_nothing (loses_plantAll _ cs)

end

theorem holds_giveBack (s : Slots) (id : NodeId) (index : Nat) :
    (s.giveBack id).Holds index ↔ s.Holds index ∧ index ≠ id.index := by
  rw [Holds, length_giveBack, giveBack, List.mem_cons, not_or, Holds]
  tauto

theorem holds_giveBackAll (s : Slots) (ids : List NodeId) (index : Nat) :
    (s.giveBackAll ids).Holds index ↔ s.Holds index ∧ index ∉ ids.map (·.index) := by
  induction ids generalizing s with
  | nil => simp [giveBackAll]
  | cons id ids ih =>
    rw [giveBackAll, List.foldl_cons, ← giveBackAll, ih, holds_giveBack, List.map_cons,
      List.mem_cons, not_or, and_assoc]

theorem generation_giveBack {id : NodeId} (h : s.Holds id.index) (index : Nat) :
    ((s.giveBack id).nameOf index).generation =
      (s.nameOf index).generation + if index = id.index then 1 else 0 := by
  simp only [giveBack, nameOf, List.getElem?_modify]
  by_cases hindex : index = id.index
  · subst hindex
    rw [List.getElem?_eq_getElem h.1]
    simp
  · rw [if_neg hindex]
    cases s.generations[index]? <;> simp [Ne.symm hindex]

/-- Names of different slots in use are given back. -/
theorem loses_giveBackAll {ids : List NodeId} (hids : (ids.map (·.index)).Nodup)
    (h : ∀ id ∈ ids, s.Holds id.index) : s.Loses (ids.map (·.index)) (s.giveBackAll ids) where
  generation index := by
    induction ids generalizing s with
    | nil => simp [giveBackAll]
    | cons id ids ih =>
      rw [List.map_cons, List.nodup_cons] at hids
      rw [List.forall_mem_cons] at h
      have hlater : ∀ other ∈ ids, (s.giveBack id).Holds other.index := by
        intro other hother
        refine (holds_giveBack ..).mpr ⟨h.2 other hother, fun heq => hids.1 ?_⟩
        exact heq ▸ List.mem_map_of_mem hother
      rw [giveBackAll, List.foldl_cons, ← giveBackAll, ih hids.2 hlater, generation_giveBack h.1,
        List.map_cons]
      by_cases hindex : index = id.index
      · rw [hindex, if_pos rfl, if_neg hids.1, if_pos List.mem_cons_self,
          UInt32.add_zero]
      · rw [if_neg hindex, UInt32.add_zero]
        simp only [List.mem_cons, hindex, false_or]
  held hindex := by
    obtain ⟨id, hid, rfl⟩ := List.mem_map.mp hindex
    exact ⟨h id hid, fun hholds => ((holds_giveBackAll ..).mp hholds).2 hindex⟩
  kept hindex hgone := (holds_giveBackAll ..).mpr ⟨hindex, hgone⟩

end Slots

/-! ### Edits that give no slot back -/

namespace Outline

variable {α : Type} {o : Outline}

/-- An edit that succeeds gives no slot back. -/
def LosesNothing (o : Outline) (x : Except ConditionError (Outcome α)) : Prop :=
  ∀ y, x = .ok y → o.slots.Loses [] y.outline.slots

theorem losesNothing_error (e : ConditionError) :
    o.LosesNothing (.error e : Except _ (Outcome α)) := fun _ h => nomatch h

theorem losesNothing_ok {y : Outcome α} (h : o.slots.Loses [] y.outline.slots) :
    o.LosesNothing (.ok y) := by
  intro z hz
  cases hz
  exact h

end Outline

/-! ### Names that leave -/

/-- How a name leaves a tree: its condition is removed, or one above it; a block above it is
cleared; or its condition is a block that is ungrouped and loses all children. -/
inductive Tree.Leaves (t : Tree) (id : NodeId) : Edit → Prop
  | removed {top : NodeId} {c : Condition}
      (h : (t.perform (.remove top)).answer = .ok (.removed c))
      (hbelow : Relation.ReflTransGen t.IsChild id top) : Leaves t id (.remove top)
  | cleared {block : NodeId} (h : (t.perform (.clear block)).answer = .ok .done)
      (hbelow : Relation.TransGen t.IsChild id block) : Leaves t id (.clear block)
  | collapsed {candidates : List NodeId}
      (h : (t.perform (.ungroup id candidates)).answer = .ok (.flag true))
      (hall : ∀ child, t.IsChild child id → child ∈ candidates) :
      Leaves t id (.ungroup id candidates)

/-- By an edit without an effect no name leaves. -/
theorem Tree.Leaves.notice?_ne_none {t : Tree} {id : NodeId} {e : Edit} {answer : EditAnswer}
    (h : t.Leaves id e) (hanswer : (t.perform e).answer = .ok answer) :
    e.notice? answer ≠ none := by
  cases h with
  | removed h _ =>
    cases h.symm.trans hanswer
    exact Option.some_ne_none _
  | cleared h _ =>
    cases h.symm.trans hanswer
    exact Option.some_ne_none _
  | collapsed h _ =>
    cases h.symm.trans hanswer
    exact Option.some_ne_none _

/-- The changes by which names leave. -/
theorem Tree.Leaves.change?_mem {t : Tree} {id : NodeId} {e : Edit} (h : t.Leaves id e) :
    e.change? ∈ [some .removed, some .cleared, some .ungrouped] := by
  cases h with
  | removed => exact List.mem_cons_self
  | cleared => exact List.mem_cons_of_mem _ List.mem_cons_self
  | collapsed => exact List.mem_cons_of_mem _ (List.mem_cons_of_mem _ List.mem_cons_self)

namespace Represents

variable {t : Tree} {o : Outline}

/-- The answer to an edit is that of the outline. -/
theorem answer_perform (h : Represents t o) (e : Edit) :
    (t.perform e).answer = (o.perform e).map (·.answer) := by
  have hcall := h.call e
  rw [Tree.perform, Tree.outcome]
  cases hx : o.perform e with
  | error cause =>
    rw [hx] at hcall
    rw [show e.call t = _ from hcall]
    rfl
  | ok x =>
    rw [hx] at hcall
    obtain ⟨u, hu, -⟩ := hcall
    rw [hu]
    rfl

theorem isChild_iff (h : Represents t o) {frames : List NodeFrame} {n : Node}
    (hroot : o.root = Node.plug frames n) {id : NodeId} :
    t.IsChild id n.id ↔ id ∈ n.children.map Node.id := by
  rw [Tree.IsChild, (h.includes hroot).get?_eq]
  simp only [Option.some.injEq, exists_eq_left']
  cases n <;> exact Iff.rfl

/-- The links of a node lead to names below it. -/
theorem mem_ids_of_isChild (h : Represents t o) {frames : List NodeFrame} {n : Node}
    (hroot : o.root = Node.plug frames n) {child block : NodeId} (hchild : t.IsChild child block)
    (hblock : block ∈ n.ids) : child ∈ n.ids := by
  obtain ⟨inner, k, rfl, rfl⟩ := Node.exists_plug hblock
  rw [← Node.plug_append] at hroot
  obtain ⟨c, hc, rfl⟩ := List.mem_map.mp ((h.isChild_iff hroot).mp hchild)
  exact Node.mem_ids_plug inner (Node.id_mem_ids_of_child hc)

/-- The names below a node are those from which the links lead up to it. -/
theorem mem_ids_iff (h : Represents t o) {frames : List NodeFrame} {n : Node}
    (hroot : o.root = Node.plug frames n) {id : NodeId} :
    id ∈ n.ids ↔ Relation.ReflTransGen t.IsChild id n.id := by
  constructor
  · induction n using Node.nested generalizing frames with
    | leaf head content =>
      intro hid
      rw [Node.ids_leaf, List.mem_singleton] at hid
      rw [hid]
      exact .refl
    | block head children ih =>
      intro hid
      rw [Node.ids_block, List.mem_cons, List.mem_flatMap] at hid
      obtain rfl | ⟨c, hc, hid⟩ := hid
      · exact .refl
      · obtain ⟨before, after, rfl⟩ := List.append_of_mem hc
        have hchild : o.root = Node.plug (⟨head, before, after⟩ :: frames) c := hroot
        exact (ih c hc hchild hid).tail (h.isChild hchild)
  · intro hbelow
    induction hbelow using Relation.ReflTransGen.head_induction_on with
    | refl => exact n.id_mem_ids
    | head hchild _ ih => exact h.mem_ids_of_isChild hroot hchild ih

/-- The names below the children of a block are those from which links lead up to it. -/
theorem mem_flatMap_ids_iff (h : Represents t o) {frames : List NodeFrame} {head : Head}
    {children : List Node} (hroot : o.root = Node.plug frames (.block head children))
    {id : NodeId} :
    id ∈ children.flatMap Node.ids ↔ Relation.TransGen t.IsChild id head.id := by
  rw [List.mem_flatMap, Relation.TransGen.tail'_iff]
  constructor
  · rintro ⟨c, hc, hid⟩
    obtain ⟨before, after, rfl⟩ := List.append_of_mem hc
    have hchild : o.root = Node.plug (⟨head, before, after⟩ :: frames) c := hroot
    exact ⟨c.id, (h.mem_ids_iff hchild).mp hid, h.isChild hchild⟩
  · rintro ⟨child, hbelow, hchild⟩
    obtain ⟨c, hc, rfl⟩ : ∃ c ∈ children, c.id = child :=
      List.mem_map.mp ((h.isChild_iff hroot).mp hchild)
    obtain ⟨before, after, rfl⟩ := List.append_of_mem hc
    have hchild : o.root = Node.plug (⟨head, before, after⟩ :: frames) c := hroot
    exact ⟨c, hc, (h.mem_ids_iff hchild).mpr hbelow⟩

/-! ### Slots of names in use -/

/-- Every slot is that of one name in use, or is empty. -/
theorem indices (h : Represents t o) :
    (o.root.ids.map (·.index) ++ o.slots.free).Perm (List.range o.slots.generations.length) := by
  have hindices := h.stores.indices_add_free
  have hids : (o.root.entries none).map (·.1.index) =
      (o.root.ids.map (·.index) : Multiset Nat) := by
    rw [← Function.comp_def, ← Multiset.map_map, Node.map_fst_entries, Multiset.map_coe]
  have hlength : o.slots.generations.length = t.arena.slots.length := by
    rw [← h.slots]
    exact List.length_map _
  have hfree : t.arena.free = o.slots.free := congrArg Slots.free h.slots
  rw [hids, hfree, ← hlength] at hindices
  exact Multiset.coe_eq_coe.mp hindices

theorem nodup_indices (h : Represents t o) : (o.root.ids.map (·.index)).Nodup :=
  (h.indices.nodup_iff.mpr List.nodup_range).of_append_left

theorem holds_of_mem (h : Represents t o) {id : NodeId} (hid : id ∈ o.root.ids) :
    o.slots.Holds id.index := by
  have hindex := List.mem_map_of_mem (f := (·.index)) hid
  constructor
  · exact List.mem_range.mp (h.indices.mem_iff.mp (List.mem_append_left _ hindex))
  · exact List.disjoint_of_nodup_append (h.indices.nodup_iff.mpr List.nodup_range) hindex

/-- Different names in use are given back. -/
theorem loses_giveBackAll (h : Represents t o) {ids : List NodeId} (hids : ids.Nodup)
    (hsub : ids ⊆ o.root.ids) :
    o.slots.Loses (ids.map (·.index)) (o.slots.giveBackAll ids) := by
  refine Slots.loses_giveBackAll ?_ fun id hid => h.holds_of_mem (hsub hid)
  refine hids.map_on fun id hid other hother => ?_
  exact List.inj_on_of_nodup_map h.nodup_indices (hsub hid) (hsub hother)

/-! ### Every edit -/

/-- Slots are given back by an edit exactly for the names that leave. -/
def Frees (t : Tree) (o : Outline) (e : Edit) : Prop :=
  ∃ gone : List NodeId, gone ⊆ o.root.ids ∧ (∀ id, id ∈ gone ↔ t.Leaves id e) ∧
    o.slots.Loses (gone.map (·.index)) (o.after e).slots

/-- An edit that gives no slot back, and by which no name leaves. -/
theorem frees_nothing {e : Edit} (hnothing : o.LosesNothing (o.perform e))
    (hleaves : ∀ id, ¬ t.Leaves id e) : Frees t o e := by
  refine ⟨[], List.nil_subset _, fun id => iff_of_false List.not_mem_nil (hleaves id), ?_⟩
  rw [Outline.after]
  cases hx : o.perform e with
  | error cause => exact o.slots.loses_nothing
  | ok x => exact hnothing x hx

/-- By an edit that fails no name leaves. -/
theorem frees_of_error (h : Represents t o) {e : Edit} {cause : ConditionError}
    (he : o.perform e = .error cause) : Frees t o e := by
  refine frees_nothing (he ▸ Outline.losesNothing_error cause) fun id hleaves => ?_
  have hanswer := h.answer_perform e
  rw [he] at hanswer
  cases hleaves with
  | removed hremoved _ => cases hanswer.symm.trans hremoved
  | cleared hcleared _ => cases hanswer.symm.trans hcleared
  | collapsed hcollapsed _ => cases hanswer.symm.trans hcollapsed

/-- An edit that gives back the slots of the names that leave. -/
theorem frees_giveBackAll (h : Represents t o) {e : Edit} {x : Outline.Outcome EditAnswer}
    {gone : List NodeId} (hx : o.perform e = .ok x) (hgone : gone.Nodup)
    (hsub : gone ⊆ o.root.ids) (hslots : x.outline.slots = o.slots.giveBackAll gone)
    (hleaves : ∀ id, id ∈ gone ↔ t.Leaves id e) : Frees t o e := by
  refine ⟨gone, hsub, hleaves, ?_⟩
  rw [Outline.after, hx]
  exact hslots ▸ h.loses_giveBackAll hgone hsub

/-- Of the children of a block that are all candidates, each is a candidate by its link. -/
theorem forall_isChild_iff (h : Represents t o) {frames : List NodeFrame} {head : Head}
    {children : List Node} (hroot : o.root = Node.plug frames (.block head children))
    (candidates : List NodeId) : (∀ child, t.IsChild child head.id → child ∈ candidates) ↔
      children.all (candidates.contains ·.id) := by
  have hchild (child : NodeId) : t.IsChild child head.id ↔ child ∈ children.map Node.id :=
    h.isChild_iff hroot
  simp only [hchild, List.forall_mem_map, List.all_eq_true, List.contains_iff_mem]

theorem frees (h : Represents t o) (e : Edit) : Frees t o e := by
  have hanswer := h.answer_perform e
  have hnodup := h.nodup
  cases hx : o.perform e with
  | error cause => exact h.frees_of_error hx
  | ok x =>
    rw [hx] at hanswer
    have hnothing (hslots : o.slots.Loses [] x.outline.slots) : o.LosesNothing (o.perform e) :=
      hx ▸ Outline.losesNothing_ok hslots
    cases Outline.step_perform hnodup hx with
    | idle hnotice hnew =>
      exact frees_nothing (hnothing o.slots.loses_nothing) fun id hleaves =>
        hleaves.notice?_ne_none hanswer hnotice
    | @added _ frames head children c n slots hroot hplant hchange htarget =>
      have hslots := o.slots.loses_plant c
      rw [hplant] at hslots
      refine frees_nothing (hnothing hslots) fun id hleaves => ?_
      have hmem := hleaves.change?_mem
      rw [hchange] at hmem
      revert hmem
      decide
    | @removed frame frames n hroot =>
      rw [hroot, (Node.ids_plug_perm _ n).nodup_iff] at hnodup
      refine h.frees_giveBackAll hx hnodup.of_append_right ?_ rfl fun id => ?_
      · rw [hroot]
        exact fun id hid => Node.mem_ids_plug _ hid
      · rw [h.mem_ids_iff hroot]
        constructor
        · exact fun hbelow => .removed hanswer hbelow
        · intro hleaves
          cases hleaves with
          | removed _ hbelow => exact hbelow
    | @grouped frames head children candidates first second others id slots hroot hmatched htake =>
      have hslots := o.slots.loses_take
      rw [htake] at hslots
      exact frees_nothing (hnothing hslots) nofun
    | @emptied frame frames head children candidates hroot hsome hall =>
      have hmem : head.id ∈ o.root.ids :=
        hroot ▸ Node.mem_ids_plug _ (Node.id_mem_ids (.block head children))
      refine h.frees_giveBackAll hx (List.nodup_singleton head.id)
        (List.cons_subset.mpr ⟨hmem, List.nil_subset _⟩) rfl fun id => ?_
      rw [List.mem_singleton]
      constructor
      · rintro rfl
        exact .collapsed hanswer ((h.forall_isChild_iff hroot candidates).mpr hall)
      · intro hleaves
        cases hleaves with
        | collapsed _ _ => rfl
    | @kept frame frames head children moved kept candidates hroot hmoved hkept hsome hrest =>
      refine frees_nothing (hnothing o.slots.loses_nothing) fun id hleaves => ?_
      cases hleaves with
      | collapsed _ hchildren =>
        have hall := (h.forall_isChild_iff hroot candidates).mp hchildren
        rw [Node.all_iff_filter_eq_nil, hkept] at hall
        exact hrest hall
    | @cleared frames head children hroot =>
      have hsub : children.flatMap Node.ids ⊆ (Node.block head children).ids := by
        rw [Node.ids_block]
        exact List.subset_cons_self _ _
      rw [hroot, (Node.ids_plug_perm _ _).nodup_iff] at hnodup
      have hbelow := hnodup.of_append_right
      rw [Node.ids_block] at hbelow
      refine h.frees_giveBackAll hx hbelow.of_cons ?_ rfl fun id => ?_
      · rw [hroot]
        exact fun id hid => Node.mem_ids_plug _ (hsub hid)
      · rw [h.mem_flatMap_ids_iff hroot]
        constructor
        · exact fun hbelow => .cleared hanswer hbelow
        · intro hleaves
          cases hleaves with
          | cleared _ hbelow => exact hbelow
    | @refilled e answer change frames head content after hroot hchange hedit htarget hnew =>
      refine frees_nothing (hnothing o.slots.loses_nothing) fun id hleaves => ?_
      have hmem := hleaves.change?_mem
      rw [hedit] at hmem
      have hothers : ∀ change ∈ [Change.propertyChanged, .operatorChanged, .valueChanged],
          some change ∉ [some Change.removed, some .cleared, some .ungrouped] := by decide
      exact hothers change hchange hmem
    | relabelled logical hroot => exact frees_nothing (hnothing o.slots.loses_nothing) nofun
    | subscribed hroot => exact frees_nothing (hnothing o.slots.loses_nothing) nofun
    | unsubscribed listener hroot => exact frees_nothing (hnothing o.slots.loses_nothing) nofun
    | compiled hroot => exact frees_nothing (hnothing o.slots.loses_nothing) nofun

end Represents

/-! ### How often a slot is emptied -/

namespace Tree

/-- Whether there is a condition in a slot. -/
def holds (t : Tree) (index : Nat) : Bool := ((t.arena.slots[index]?).bind fun s => s.entry?).isSome

/-- How often a slot is emptied in the course of edits. -/
def emptied (t : Tree) (index : Nat) : List Edit → Nat
  | [] => 0
  | e :: edits =>
    (if t.holds index && !(t.after e).holds index then 1 else 0) + (t.after e).emptied index edits

theorem emptied_append (t : Tree) (index : Nat) (edits others : List Edit) :
    t.emptied index (edits ++ others) =
      t.emptied index edits + (t.run edits).emptied index others := by
  induction edits generalizing t with
  | nil => simp [emptied, run]
  | cons e edits ih =>
    rw [List.cons_append, emptied, ih, emptied, Nat.add_assoc]
    rfl

end Tree

namespace Represents

variable {t : Tree} {o : Outline}

theorem holds_iff (h : Represents t o) (index : Nat) : t.holds index ↔ o.slots.Holds index := by
  rw [Tree.holds, ← h.slots, Slots.Holds]
  have hfree := h.stores.tidy.mem_free index
  simp only [Arena.numbering, List.length_map, hfree]
  cases hs : t.arena.slots[index]? with
  | none =>
    have hnew := List.getElem?_eq_none_iff.mp hs
    simp [Nat.not_lt.mpr hnew]
  | some s =>
    have hlt := (List.getElem?_eq_some_iff.mp hs).1
    cases he : s.entry? <;> simp [hlt, he]

/-- A name is in use exactly if its slot is, in the generation of the name. -/
theorem contains_iff (h : Represents t o) (id : NodeId) :
    t.contains id ↔
      o.slots.Holds id.index ∧ (o.slots.nameOf id.index).generation = id.generation := by
  rw [← h.holds_iff, Tree.holds, Tree.contains, Arena.get?_def, ← h.slots]
  simp only [Arena.numbering, Slots.nameOf, List.getElem?_map]
  cases t.arena.slots[id.index]? with
  | none => simp
  | some s => by_cases hgen : s.generation = id.generation <;> simp [hgen]

theorem contains_iff_mem (h : Represents t o) (id : NodeId) : t.contains id ↔ id ∈ o.root.ids := by
  rw [h.contains_eq, Outline.node]
  cases hn : o.root.find? id with
  | none => simpa [Except.isOk, Except.toBool] using Node.find?_eq_none.mp hn
  | some n =>
    have hmem : id ∈ o.root.ids := by
      rw [← not_not (a := id ∈ o.root.ids), ← Node.find?_eq_none, hn]
      exact Option.some_ne_none n
    simpa [Except.isOk, Except.toBool] using hmem

/-- The names that leave by an edit are those that are in use before it and no longer after it. -/
theorem leaves_iff (h : Represents t o) (e : Edit) (id : NodeId) :
    t.Leaves id e ↔ t.contains id ∧ ¬ (t.after e).contains id := by
  obtain ⟨gone, hsub, hleaves, hloses⟩ := h.frees e
  rw [← hleaves]
  constructor
  · intro hid
    refine ⟨(h.contains_iff_mem id).mpr (hsub hid), fun hafter => ?_⟩
    exact (hloses.held (List.mem_map_of_mem hid)).2 (((h.after e).contains_iff id).mp hafter).1
  · rintro ⟨hbefore, hafter⟩
    by_contra hid
    have hindex : id.index ∉ gone.map (·.index) := by
      intro hmem
      obtain ⟨other, hother, heq⟩ := List.mem_map.mp hmem
      have hsame := List.inj_on_of_nodup_map h.nodup_indices (hsub hother)
        ((h.contains_iff_mem id).mp hbefore) heq
      exact hid (hsame ▸ hother)
    obtain ⟨hholds, hgen⟩ := (h.contains_iff id).mp hbefore
    refine hafter (((h.after e).contains_iff id).mpr ⟨hloses.kept hholds hindex, ?_⟩)
    rw [hloses.generation, if_neg hindex, UInt32.add_zero, hgen]

/-- By an edit the generation of a slot is counted up exactly if the slot is emptied. -/
theorem generation_after (h : Represents t o) (e : Edit) (index : Nat) :
    ((o.after e).slots.nameOf index).generation = (o.slots.nameOf index).generation +
      if t.holds index && !(t.after e).holds index then 1 else 0 := by
  obtain ⟨gone, -, -, hloses⟩ := h.frees e
  rw [hloses.generation]
  have hemptied : index ∈ gone.map (·.index) ↔ t.holds index && !(t.after e).holds index := by
    rw [Bool.and_eq_true, Bool.not_eq_true', ← Bool.not_eq_true, h.holds_iff,
      (h.after e).holds_iff]
    constructor
    · exact fun hindex => hloses.held hindex
    · rintro ⟨hheld, hafter⟩
      by_contra hindex
      exact hafter (hloses.kept hheld hindex)
  simp only [hemptied]

/-- The generation of a slot counts how often it is emptied. -/
theorem generation_run (h : Represents t o) (edits : List Edit) (index : Nat) :
    ((o.run edits).slots.nameOf index).generation =
      (o.slots.nameOf index).generation + UInt32.ofNat (t.emptied index edits) := by
  induction edits generalizing t o with
  | nil => exact (UInt32.add_zero _).symm
  | cons e edits ih =>
    rw [Tree.emptied, UInt32.ofNat_add, ← UInt32.add_assoc]
    refine (ih (h.after e)).trans ?_
    rw [h.generation_after]
    split <;> rfl

end Represents

end EntityQuery
