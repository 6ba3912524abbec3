import EntityQuery.Proofs.Tree.Nesting

/-!
# Coherent nodes

A node is coherent if every expression that is remembered in it or below it is the one that its
detached condition has.

* `Node.Coherent` — the property.
* `Node.compile_spec` — compiling a coherent node gives the expression of its detached condition,
  and leaves it coherent.
* `Node.coherent_plug` — a coherent node comes in the place of a node with the same detached
  condition.
-/

namespace EntityQuery

namespace Node

/-! ### Nodes below a node -/

theorem toList_block (head : Head) (children : List Node) :
    (block head children).toList = block head children :: children.flatMap toList := by
  rw [toList, allToList_eq_flatMap]

theorem mem_toList_self (n : Node) : n ∈ n.toList := by
  cases n <;> simp [toList]

theorem mem_toList_of_child {n c k : Node} (hc : c ∈ n.children) (hk : k ∈ c.toList) :
    k ∈ n.toList := by
  cases n with
  | leaf head content => cases hc
  | block head children =>
    rw [toList_block]
    exact List.mem_cons_of_mem _ (List.mem_flatMap_of_mem hc hk)

theorem mem_toList {n k : Node} : k ∈ n.toList ↔ k = n ∨ ∃ c ∈ n.children, k ∈ c.toList := by
  cases n with
  | leaf head content => simp [toList, children]
  | block head children => rw [toList_block, List.mem_cons, List.mem_flatMap]; rfl

theorem mem_ids_of_mem {n k : Node} (hk : k ∈ n.toList) : k.id ∈ n.ids :=
  List.mem_map_of_mem hk

/-- A node below a node is in some surroundings. -/
theorem exists_plug_of_mem {n k : Node} (hk : k ∈ n.toList) : ∃ frames, n = plug frames k := by
  induction n using nested with
  | leaf head content =>
    rw [toList, List.mem_singleton] at hk
    exact ⟨[], hk ▸ rfl⟩
  | block head children ih =>
    rw [toList_block, List.mem_cons] at hk
    rcases hk with rfl | hk
    · exact ⟨[], rfl⟩
    · obtain ⟨c, hc, hbelow⟩ := List.mem_flatMap.mp hk
      obtain ⟨before, after, rfl⟩ := List.append_of_mem hc
      obtain ⟨frames, rfl⟩ := ih c hc hbelow
      let frame : NodeFrame := ⟨head, before, after⟩
      exact ⟨frames ++ [frame], (plug_append frames [frame] k).symm⟩

/-- What is below a node has no other names than the node has. -/
theorem ids_subset_of_mem {n k : Node} (hk : k ∈ n.toList) : k.ids ⊆ n.ids := by
  induction n using nested with
  | leaf head content =>
    rw [toList, List.mem_singleton] at hk
    rw [hk]
    exact List.Subset.refl _
  | block head children ih =>
    rw [toList_block, List.mem_cons] at hk
    rcases hk with rfl | hk
    · exact List.Subset.refl _
    · obtain ⟨c, hc, hk⟩ := List.mem_flatMap.mp hk
      rw [ids_block]
      exact List.subset_cons_of_subset _ fun id hid => List.mem_flatMap_of_mem hc (ih c hc hk hid)

theorem mem_toList_plug_of_mem {frames : List NodeFrame} {n k : Node} (hk : k ∈ n.toList) :
    k ∈ (plug frames n).toList := by
  induction frames generalizing n with
  | nil => exact hk
  | cons frame frames ih =>
    exact ih (mem_toList_of_child (n := frame.attach n)
      (List.mem_append_right _ List.mem_cons_self) hk)

theorem mem_toList_plug_of_sibling {frames : List NodeFrame} {n k c : Node} {frame : NodeFrame}
    (hframe : frame ∈ frames) (hc : c ∈ frame.before ++ frame.after) (hk : k ∈ c.toList) :
    k ∈ (plug frames n).toList := by
  induction frames generalizing n with
  | nil => cases hframe
  | cons outer frames ih =>
    rcases List.mem_cons.mp hframe with rfl | hframe
    · have hchild : c ∈ (frame.attach n).children := by
        rcases List.mem_append.mp hc with hc | hc
        · exact List.mem_append_left _ hc
        · exact List.mem_append_right _ (List.mem_cons_of_mem _ hc)
      exact mem_toList_plug_of_mem (n := frame.attach n) (mem_toList_of_child hchild hk)
    · exact ih hframe

/-- A node in its surroundings has below it what is below the node, what is below the siblings
around it, and the blocks that have the node below them. -/
theorem mem_toList_plug {frames : List NodeFrame} {n k : Node} (hk : k ∈ (plug frames n).toList) :
    k ∈ n.toList ∨ (∃ frame ∈ frames, ∃ c ∈ frame.before ++ frame.after, k ∈ c.toList) ∨
      ∃ frame ∈ frames, k.head = frame.head ∧ n.ids ⊆ k.ids := by
  induction frames generalizing n with
  | nil => exact Or.inl hk
  | cons frame frames ih =>
    have hsub : n.ids ⊆ (frame.attach n).ids :=
      ids_subset_of_mem (mem_toList_of_child (n := frame.attach n)
        (List.mem_append_right _ List.mem_cons_self) n.mem_toList_self)
    rcases ih hk with hk | ⟨outer, houter, hrest⟩ | ⟨outer, houter, hhead, hids⟩
    · rcases mem_toList.mp hk with rfl | ⟨c, hc, hbelow⟩
      · exact Or.inr (Or.inr ⟨frame, List.mem_cons_self, rfl, hsub⟩)
      · rcases frame.mem_children_attach.mp hc with rfl | hc
        · exact Or.inl hbelow
        · exact Or.inr (Or.inl ⟨frame, List.mem_cons_self, c, hc, hbelow⟩)
    · exact Or.inr (Or.inl ⟨outer, List.mem_cons_of_mem _ houter, hrest⟩)
    · exact Or.inr (Or.inr ⟨outer, List.mem_cons_of_mem _ houter, hhead,
        fun id hid => hids (hsub hid)⟩)

/-- A child of a block does not have the block's name. -/
theorem not_mem_ids_child {n c : Node} (h : n.ids.Nodup) (hc : c ∈ n.children) : n.id ∉ c.ids := by
  cases n with
  | leaf head content => cases hc
  | block head children =>
    rw [ids_block, List.nodup_cons] at h
    exact not_mem_ids_of_mem hc h.1

/-! ### Coherence -/

/-- A remembered expression is that of the detached condition. -/
def CoherentAt (n : Node) : Prop := ∀ e?, n.head.cache = some e? → e? = n.toCondition.expr?

/-- All remembered expressions are those of the detached conditions. -/
def Coherent (n : Node) : Prop := ∀ k ∈ n.toList, k.CoherentAt

theorem coherent_block {head : Head} {children : List Node} :
    (block head children).Coherent ↔
      (block head children).CoherentAt ∧ ∀ c ∈ children, c.Coherent := by
  simp only [Coherent, toList_block, List.mem_cons, forall_eq_or_imp, List.mem_flatMap,
    forall_exists_index, and_imp]
  exact and_congr_right fun _ => ⟨fun h c hc k hk => h k c hc hk, fun h k c hc hk => h c hc k hk⟩

theorem coherent_leaf {head : Head} {content : Leaf} :
    (leaf head content).Coherent ↔ (leaf head content).CoherentAt := by
  simp [Coherent, toList]

theorem Coherent.child {n c : Node} (h : n.Coherent) (hc : c ∈ n.children) : c.Coherent :=
  fun k hk => h k (mem_toList_of_child hc hk)

theorem coherentAt_of_cache {n : Node} (h : n.head.cache = none) : n.CoherentAt := by
  intro e? he
  rw [h] at he
  cases he

theorem compileAll_spec {ns : List Node}
    (hns : ∀ n ∈ ns, n.compile.expr? = n.toCondition.expr? ∧ n.compile.result.Coherent ∧
      n.compile.result.toCondition = n.toCondition) (before? : Option Expr) :
    (compileAll before? ns).expr? = Condition.exprs? before? (ns.map toCondition) ∧
      (∀ n ∈ (compileAll before? ns).result, n.Coherent) ∧
      (compileAll before? ns).result.map toCondition = ns.map toCondition := by
  induction ns generalizing before? with
  | nil => exact ⟨rfl, List.forall_mem_nil _, rfl⟩
  | cons n ns ih =>
    obtain ⟨hexpr, hcoherent, hsame⟩ := hns n List.mem_cons_self
    have hrest := ih fun n hn => hns n (List.mem_cons_of_mem _ hn)
    rw [compileAll, List.map_cons, Condition.exprs?, ← hexpr, logical_toCondition]
    refine ⟨?_, ?_, ?_⟩
    · cases n.compile.expr? with
      | none => exact (hrest before?).1
      | some e => exact (hrest _).1
    · intro k hk
      rcases List.mem_cons.mp hk with rfl | hk
      · exact hcoherent
      · exact (hrest _).2.1 k hk
    · rw [List.map_cons, hsame, (hrest _).2.2]

/-- Compiling a coherent node gives the expression of its detached condition. The node stays
coherent and has the same detached condition. -/
theorem compile_spec {n : Node} (h : n.Coherent) :
    n.compile.expr? = n.toCondition.expr? ∧ n.compile.result.Coherent ∧
      n.compile.result.toCondition = n.toCondition := by
  induction n using nested with
  | leaf head content =>
    rw [compile]
    cases hcache : head.cache with
    | some e? => exact ⟨h _ (mem_toList_self _) e? hcache, h, rfl⟩
    | none =>
      refine ⟨rfl, ?_, rfl⟩
      rw [coherent_leaf]
      intro e? he
      exact (Option.some.inj he).symm
  | block head children ih =>
    rw [compile]
    cases hcache : head.cache with
    | some e? => exact ⟨h _ (mem_toList_self _) e? hcache, h, rfl⟩
    | none =>
      obtain ⟨hexpr, hcoherent, hsame⟩ := compileAll_spec (fun c hc => ih c hc (h.child hc)) none
      have hblock : ∀ head' : Head, (block head' (compileAll none children).result).toCondition =
          .block head'.logical (children.map toCondition) := by
        intro head'
        rw [toCondition, allToCondition_eq_map, hsame]
      have hcondition : (block head children).toCondition.expr? =
          Condition.exprs? none (children.map toCondition) := by
        rw [toCondition, allToCondition_eq_map, Condition.expr?]
      refine ⟨hexpr.trans hcondition.symm, coherent_block.mpr ⟨?_, hcoherent⟩, ?_⟩
      · intro e? he
        rw [hblock, Condition.expr?, ← hexpr]
        exact (Option.some.inj he).symm
      · rw [hblock, toCondition, allToCondition_eq_map]

/-! ### Coherence after a change -/

theorem toCondition_attach {frame : NodeFrame} {m n : Node} (h : m.toCondition = n.toCondition) :
    (frame.attach m).toCondition = (frame.attach n).toCondition := by
  simp only [NodeFrame.attach, toCondition, allToCondition_eq_map, List.map_append, List.map_cons,
    h]

/-- A coherent node comes in the place of a node with the same detached condition. -/
theorem coherent_plug {frames : List NodeFrame} {m n : Node} (h : (plug frames m).Coherent)
    (hn : n.Coherent) (hsame : n.toCondition = m.toCondition) : (plug frames n).Coherent := by
  induction frames generalizing m n with
  | nil => exact hn
  | cons frame frames ih =>
    have hattach : (frame.attach m).Coherent := by
      intro k hk
      apply h k
      show k ∈ (plug frames (frame.attach m)).toList
      exact mem_toList_plug_of_mem hk
    refine ih h (coherent_block.mpr ⟨?_, ?_⟩) (toCondition_attach hsame)
    · intro e? he
      rw [hattach _ (mem_toList_self _) e? he]
      exact congrArg _ (toCondition_attach hsame).symm
    · intro c hc
      rcases List.mem_append.mp hc with hc | hc
      · exact hattach.child (List.mem_append_left _ hc)
      · rcases List.mem_cons.mp hc with rfl | hc
        · exact hn
        · exact hattach.child (List.mem_append_right _ (List.mem_cons_of_mem _ hc))

end Node

end EntityQuery
