import EntityQuery.Proofs.List.Mapping
import EntityQuery.Proofs.Tree.Entries

/-!
# Walks over stored nodes

What the walks of an arena answer at a node whose entries the arena has. A walk needs as many levels
as there are names below its node.

* `Arena.Includes` — an arena has some entries, perhaps among others.
* `Arena.snapshotAt_spec`, `Arena.outlineAt_spec`, `Arena.firstLeafAt?_spec`,
  `Arena.describeAt_spec` — the walks downwards.
* `Arena.compileAt_spec` — compiling remembers the expressions that `Node.compile` remembers.
* `Arena.touchAt_spec` — the walk upwards goes through the surroundings of a node.
-/

namespace EntityQuery

namespace Node

theorem mem_allEntries {parent? : Option NodeId} {ns : List Node} {x : NodeId × Entry} :
    x ∈ allEntries parent? ns ↔ ∃ n ∈ ns, x ∈ n.entries parent? := by
  induction ns with
  | nil => simp
  | cons n ns ih => rw [allEntries, Multiset.mem_add, ih, List.exists_mem_cons_iff]

/-- The first leaf of a block is the first one of its children. -/
theorem firstLeaf?_block (head : Head) (children : List Node) :
    (block head children).firstLeaf? = children.findSome? firstLeaf? := by
  rw [firstLeaf?, toList, allToList_eq_flatMap, List.find?_cons_of_neg (by simp [isBlock]),
    List.find?_flatMap, List.map_findSome?]
  rfl

end Node

namespace Arena

variable {a : Arena} {parent? : Option NodeId} {es : Multiset (NodeId × Entry)} {n : Node}
  {levels : Nat}

/-- An arena has some entries, perhaps among others. -/
def Includes (a : Arena) (es : Multiset (NodeId × Entry)) : Prop :=
  ∀ id e, (id, e) ∈ es → a.get? id = some e

theorem Stores.includes {fs : Multiset (NodeId × Entry)} (h : a.Stores (es + fs)) :
    a.Includes es :=
  fun id e he => (h.mem id e).mpr (Multiset.mem_add.mpr (Or.inl he))

theorem Includes.get?_eq (h : a.Includes (n.entries parent?)) :
    a.get? n.id = some (n.entry parent?) :=
  h _ _ (by rw [Node.entries_eq_cons]; exact Multiset.mem_cons_self _ _)

theorem Includes.child {head : Head} {children : List Node} {c : Node}
    (h : a.Includes ((Node.block head children).entries parent?)) (hc : c ∈ children) :
    a.Includes (c.entries (some head.id)) :=
  fun id e he => h id e (Multiset.mem_cons_of_mem (Node.mem_allEntries.mpr ⟨c, hc, he⟩))

/-! ### Downwards -/

/-- The levels for a block are enough for its children. -/
theorem child_levels {head : Head} {children : List Node}
    (h : (Node.block head children).ids.length ≤ levels + 1) :
    ∀ c ∈ children, c.ids.length ≤ levels :=
  fun _ hc => Nat.le_of_lt_succ (Nat.lt_of_lt_of_le (Node.length_ids_lt head hc) h)

theorem no_levels (n : Node) : ¬ n.ids.length ≤ 0 := by
  cases n <;> simp

/-! ### Unknown names -/

theorem snapshotAt_unknown {id : NodeId} (h : a.get? id = none) (levels : Nat) :
    a.snapshotAt levels id = .error (.unknownCondition id) := by
  cases levels with
  | zero => rfl
  | succ levels => rw [snapshotAt, h]

theorem describeAt_unknown {id : NodeId} (labels : Labels) (h : a.get? id = none) (levels : Nat) :
    describeAt labels levels a id = .error (.unknownCondition id) := by
  cases levels with
  | zero => rfl
  | succ levels => rw [describeAt, h]

theorem firstLeafAt?_unknown {id : NodeId} (h : a.get? id = none) (levels : Nat) :
    firstLeafAt? levels a id = none := by
  cases levels with
  | zero => rfl
  | succ levels => rw [firstLeafAt?, h, Option.bind_none]

theorem compileAt_unknown {id : NodeId} (h : a.get? id = none) (levels : Nat) :
    compileAt levels a id = .error (.unknownCondition id) := by
  cases levels with
  | zero => rfl
  | succ levels => rw [compileAt, h]

theorem snapshotAt_spec (hlevels : n.ids.length ≤ levels) (h : a.Includes (n.entries parent?)) :
    snapshotAt levels a n.id = .ok n.toCondition := by
  induction n using Node.nested generalizing levels parent? with
  | leaf head content =>
    cases levels with
    | zero => exact absurd hlevels (no_levels _)
    | succ levels =>
      rw [snapshotAt, h.get?_eq]
      rfl
  | block head children ih =>
    cases levels with
    | zero => exact absurd hlevels (no_levels _)
    | succ levels =>
      have below : (children.map Node.id).mapM (snapshotAt levels a) =
          .ok (children.map Node.toCondition) :=
        mapM_map_eq_pure fun c hc => ih c hc (child_levels hlevels c hc) (h.child hc)
      rw [snapshotAt, h.get?_eq]
      simp only [Node.entry, Node.body, below, Except.map, Node.toCondition,
        Node.allToCondition_eq_map]
      rfl

theorem outlineAt_spec (hlevels : n.ids.length ≤ levels) (h : a.Includes (n.entries parent?)) :
    outlineAt levels a n.id = some n := by
  induction n using Node.nested generalizing levels parent? with
  | leaf head content =>
    cases levels with
    | zero => exact absurd hlevels (no_levels _)
    | succ levels =>
      rw [outlineAt, h.get?_eq]
      rfl
  | block head children ih =>
    cases levels with
    | zero => exact absurd hlevels (no_levels _)
    | succ levels =>
      have below : (children.map Node.id).mapM (outlineAt levels a) = some (children.map id) :=
        mapM_map_eq_pure fun c hc => ih c hc (child_levels hlevels c hc) (h.child hc)
      rw [outlineAt, h.get?_eq]
      simp only [Node.entry, Node.body, below, Option.bind_some, Option.map_some, List.map_id]
      rfl

theorem firstLeafAt?_spec (hlevels : n.ids.length ≤ levels) (h : a.Includes (n.entries parent?)) :
    firstLeafAt? levels a n.id = n.firstLeaf? := by
  induction n using Node.nested generalizing levels parent? with
  | leaf head content =>
    cases levels with
    | zero => exact absurd hlevels (no_levels _)
    | succ levels =>
      rw [firstLeafAt?, h.get?_eq]
      rfl
  | block head children ih =>
    cases levels with
    | zero => exact absurd hlevels (no_levels _)
    | succ levels =>
      rw [firstLeafAt?, h.get?_eq, Node.firstLeaf?_block]
      simp only [Node.entry, Node.body, Option.bind_some, List.findSome?_map]
      have below : ∀ c ∈ children, firstLeafAt? levels a c.id = c.firstLeaf? :=
        fun c hc => ih c hc (child_levels hlevels c hc) (h.child hc)
      clear ih h hlevels
      induction children with
      | nil => rfl
      | cons c cs ihs =>
        rw [List.findSome?_cons, List.findSome?_cons, Function.comp_apply,
          below c List.mem_cons_self, ihs fun c hc => below c (List.mem_cons_of_mem _ hc)]

/-- A child is enclosed as its detached condition is. -/
theorem appendText_spec (h : a.Includes (n.entries parent?)) (before text : String) :
    a.appendText n.id before text =
      .ok (if text.isEmpty then before
        else Condition.joinText before n.toCondition.logical (n.toCondition.enclose text)) := by
  have hchildren : (n.entry parent?).children.length = n.toCondition.children.length := by
    cases n <;> simp [Node.entry, Node.body, Entry.children, Node.toCondition, Condition.children,
      Node.allToCondition_eq_map]
  rw [appendText]
  split
  · rfl
  · rw [h.get?_eq]
    simp only [hchildren, Condition.enclose, Node.logical_toCondition]
    rfl

theorem describeAll_spec {labels : Labels} {describe : NodeId → Except ConditionError String}
    {ns : List Node} (hns : ∀ n ∈ ns, a.Includes (n.entries parent?))
    (hdescribe : ∀ n ∈ ns, describe n.id = .ok (n.toCondition.text labels)) (before : String) :
    a.describeAll describe before (ns.map Node.id) =
      .ok (Condition.texts labels before (ns.map Node.toCondition)) := by
  induction ns generalizing before with
  | nil => rfl
  | cons n ns ih =>
    have hrest := ih (fun n hn => hns n (List.mem_cons_of_mem _ hn))
      fun n hn => hdescribe n (List.mem_cons_of_mem _ hn)
    rw [List.map_cons, describeAll, hdescribe n List.mem_cons_self, List.map_cons, Condition.texts]
    simp only [appendText_spec (hns n List.mem_cons_self)]
    rw [hrest]
    split <;> rfl

theorem describeAt_spec (labels : Labels) (hlevels : n.ids.length ≤ levels)
    (h : a.Includes (n.entries parent?)) :
    describeAt labels levels a n.id = .ok (n.toCondition.text labels) := by
  induction n using Node.nested generalizing levels parent? with
  | leaf head content =>
    cases levels with
    | zero => exact absurd hlevels (no_levels _)
    | succ levels =>
      rw [describeAt, h.get?_eq]
      rfl
  | block head children ih =>
    cases levels with
    | zero => exact absurd hlevels (no_levels _)
    | succ levels =>
      have below := describeAll_spec (fun c hc => h.child hc)
        (fun c hc => ih c hc (child_levels hlevels c hc) (h.child hc)) ""
      rw [describeAt, h.get?_eq]
      simp only [Node.entry, Node.body, below, Node.toCondition, Node.allToCondition_eq_map,
        Condition.text]

/-! ### Compiling -/

theorem compileAll_spec {ns : List Node} {bound : Nat}
    (hcompile : ∀ n ∈ ns, ∀ (a : Arena) es, a.Stores (n.entries parent? + es) →
      ∃ b, (∀ levels, bound ≤ levels →
          compileAt levels a n.id = .ok ⟨n.compile.expr?, b, n.compile.built⟩) ∧
        b.numbering = a.numbering ∧ b.Stores (n.compile.result.entries parent? + es))
    (before? : Option Expr) (h : a.Stores (Node.allEntries parent? ns + es)) :
    ∃ b, (∀ levels, bound ≤ levels →
        compileAll (compileAt levels) a before? (ns.map Node.id) =
          ⟨(Node.compileAll before? ns).expr?, b, (Node.compileAll before? ns).built⟩) ∧
      b.numbering = a.numbering ∧
      b.Stores (Node.allEntries parent? (Node.compileAll before? ns).result + es) := by
  induction ns generalizing a es before? with
  | nil => exact ⟨a, fun _ _ => rfl, rfl, h⟩
  | cons n ns ih =>
    rw [Node.allEntries, add_assoc] at h
    obtain ⟨b, hb, hbnum, hbes⟩ := hcompile n List.mem_cons_self a _ h
    have hlogical : ((b.get? n.id).elim .and (·.logical)) = n.head.logical := by
      have hid : n.compile.result.id = n.id := congrArg (·.id) (Node.head_compile n)
      rw [← hid, hbes.includes.get?_eq]
      exact congrArg (·.logical) (Node.head_compile n)
    rw [add_left_comm] at hbes
    obtain ⟨d, hd, hdnum, hdes⟩ :=
      ih (fun n hn => hcompile n (List.mem_cons_of_mem _ hn))
        (Condition.joinNext before? n.head.logical n.compile.expr?) hbes
    refine ⟨d, ?_, hdnum.trans hbnum, ?_⟩
    · intro levels hlevels
      rw [List.map_cons, compileAll, hb levels hlevels]
      simp only [hlogical]
      rw [Node.compileAll]
      exact congrArg (fun rest => { rest with built := n.compile.built + rest.built })
        (hd levels hlevels)
    · rw [Node.compileAll, Node.allEntries, add_assoc, add_left_comm]
      exact hdes

/-- Compiled nodes keep their names. -/
theorem map_id_compileAll (before? : Option Expr) (ns : List Node) :
    (Node.compileAll before? ns).result.map Node.id = ns.map Node.id := by
  induction ns generalizing before? with
  | nil => rfl
  | cons n ns ih =>
    rw [Node.compileAll, List.map_cons, List.map_cons, ih]
    exact congrArg (· :: _) (congrArg (·.id) (Node.head_compile n))

/-- A remembered expression is used again, and nothing changes. -/
theorem compileAt_of_cache {e? : Option Expr} (h : a.Includes (n.entries parent?))
    (hcache : n.head.cache = some e?) (hlevels : n.ids.length ≤ levels) :
    compileAt levels a n.id = .ok ⟨e?, a, 0⟩ := by
  obtain _ | levels := levels
  · exact absurd hlevels (no_levels _)
  rw [compileAt, h.get?_eq]
  simp only [Node.entry, hcache]

/-- Compiling gives the expression of the node, and remembers the expressions below it. -/
theorem compileAt_spec (h : a.Stores (n.entries parent? + es)) :
    ∃ b, (∀ levels, n.ids.length ≤ levels →
        compileAt levels a n.id = .ok ⟨n.compile.expr?, b, n.compile.built⟩) ∧
      b.numbering = a.numbering ∧ b.Stores (n.compile.result.entries parent? + es) := by
  induction n using Node.nested generalizing a parent? es with
  | leaf head content =>
    have hentry := h.includes.get?_eq
    rw [Node.compile]
    cases hcache : head.cache with
    | some e? => exact ⟨a, fun _ => compileAt_of_cache h.includes hcache, rfl, h⟩
    | none =>
      refine ⟨a.remember head.id (some content.expr), ?_, numbering_modify ..,
        h.modify_node rfl rfl rfl⟩
      intro levels hlevels
      obtain _ | levels := levels
      · exact absurd hlevels (no_levels _)
      rw [compileAt, hentry]
      simp only [Node.entry, Node.head, hcache, Node.body, Node.id_leaf]
  | block head children ih =>
    have hentry := h.includes.get?_eq
    rw [Node.compile]
    cases hcache : head.cache with
    | some e? => exact ⟨a, fun _ => compileAt_of_cache h.includes hcache, rfl, h⟩
    | none =>
      rw [Node.entries, Multiset.cons_add, ← Multiset.singleton_add, add_left_comm] at h
      obtain ⟨b, hb, hbnum, hbes⟩ := compileAll_spec
        (fun c hc a es hes => by
          obtain ⟨b, hb, hrest⟩ := ih c hc hes
          exact ⟨b, fun levels hlevels => hb levels (Nat.le_trans (Node.length_ids_le hc) hlevels),
            hrest⟩)
        none h
      refine ⟨b.remember head.id (Node.compileAll none children).expr?, ?_,
        (numbering_modify ..).trans hbnum, ?_⟩
      · intro levels hlevels
        rw [Node.ids_block, List.length_cons] at hlevels
        obtain _ | levels := levels
        · simp at hlevels
        rw [compileAt, hentry]
        simp only [Node.entry, Node.head, hcache, Node.body,
          hb levels (Nat.le_of_succ_le_succ hlevels), Node.id_block]
      · rw [add_left_comm, Multiset.singleton_add] at hbes
        rw [Node.entries, Multiset.cons_add]
        have hremembered :=
          hbes.modify ({ · with cache := some (Node.compileAll none children).expr? })
        simp only [Node.entry, Node.head, Node.body, map_id_compileAll] at hremembered ⊢
        exact hremembered

/-! ### Upwards -/

theorem Stores.uncache {frames : List NodeFrame}
    (h : a.Stores ((Node.plug frames n).entries none)) :
    (a.modify n.id ({ · with cache := none })).Stores
      ((Node.plug frames (n.withHead Head.uncached)).entries none) :=
  h.modify_head rfl (by simp [Node.entry, Head.uncached])

theorem touchAt_succ (notice : Notice) {frames : List NodeFrame} (levels : Nat)
    (h : a.Stores ((Node.plug frames n).entries none)) :
    touchAt notice (levels + 1) a (some n.id) =
      let rest :=
        touchAt notice levels (a.modify n.id ({ · with cache := none })) (Node.above frames)
      (rest.1, notice.events n.head.listeners ++ rest.2) := by
  rw [Node.entries_plug] at h
  rw [touchAt, h.includes.get?_eq]
  rfl

/-- The walk upwards forgets the expressions of a node and of the blocks around it, and tells the
listeners on the way. -/
theorem touchAt_spec (notice : Notice) {frames : List NodeFrame}
    (h : a.Stores ((Node.plug frames n).entries none)) :
    ∃ b, (∀ levels, frames.length < levels → touchAt notice levels a (some n.id) =
        (b, (n.head :: frames.map (·.head)).flatMap fun head => notice.events head.listeners)) ∧
      b.numbering = a.numbering ∧
      b.Stores
        ((Node.plug (frames.map NodeFrame.uncached) (n.withHead Head.uncached)).entries none) := by
  induction frames generalizing a n with
  | nil =>
    refine ⟨a.modify n.id ({ · with cache := none }), ?_, numbering_modify .., h.uncache⟩
    intro levels hlevels
    obtain _ | levels := levels
    · exact absurd hlevels (Nat.not_lt_zero _)
    rw [touchAt_succ notice levels h]
    cases levels <;> simp [touchAt, Node.above]
  | cons frame frames ih =>
    -- the node is forgotten first, and then the block around it
    obtain ⟨b, hb, hbnum, hbes⟩ := ih (n := frame.attach (n.withHead Head.uncached)) h.uncache
    refine ⟨b, ?_, hbnum.trans (numbering_modify ..), hbes⟩
    intro levels hlevels
    obtain _ | levels := levels
    · exact absurd hlevels (Nat.not_lt_zero _)
    rw [touchAt_succ notice levels h, Node.above, List.head?_cons, Option.map_some]
    rw [NodeFrame.id_attach] at hb
    simp only [hb levels (Nat.lt_of_succ_lt_succ hlevels), List.map_cons, List.flatMap_cons]
    rfl

end Arena

end EntityQuery
