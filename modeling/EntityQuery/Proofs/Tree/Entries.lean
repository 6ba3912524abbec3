import EntityQuery.Proofs.Tree.Nesting
import EntityQuery.Proofs.Tree.Storage
import Mathlib.Algebra.Order.Group.Multiset
import Mathlib.Tactic.Abel

/-!
# The entries of nodes

The entries that an arena has for a node and the nodes below it, as a collection. What an arena does
to nodes is what it does to their entries.

* `Node.entry`, `Node.entries` — the entry of a node, and those of all nodes below it.
* `Node.around`, `Node.entries_plug` — the entries of the surroundings of a node.
* `Arena.insert_spec` — inserting a detached condition adds the entries of a planted node.
* `Arena.extractAt_spec` — extracting a node takes its entries out.
-/

namespace EntityQuery

namespace Node

/-- What only leaves or only blocks have. -/
def body : Node → Body
  | .leaf _ content => .leaf content
  | .block _ children => .block (children.map id)

/-- The entry of a node below a block. -/
def entry (parent? : Option NodeId) (n : Node) : Entry :=
  ⟨parent?, n.head.logical, n.body, n.head.cache, n.head.listeners⟩

@[simp] theorem body_withHead (f : Head → Head) (n : Node) : (n.withHead f).body = n.body := by
  cases n <;> rfl

mutual

/-- The entries of a node and of the nodes below it. -/
def entries (parent? : Option NodeId) : Node → Multiset (NodeId × Entry)
  | .leaf head content => {(head.id, (leaf head content).entry parent?)}
  | .block head children =>
    (head.id, (block head children).entry parent?) ::ₘ allEntries (some head.id) children

/-- The entries of nodes and of the nodes below them. -/
def allEntries (parent? : Option NodeId) : List Node → Multiset (NodeId × Entry)
  | [] => 0
  | n :: ns => entries parent? n + allEntries parent? ns

end

theorem entries_eq_cons (parent? : Option NodeId) (n : Node) :
    n.entries parent? = (n.id, n.entry parent?) ::ₘ allEntries (some n.id) n.children := by
  cases n <;> rfl

theorem allEntries_append (parent? : Option NodeId) (ns others : List Node) :
    allEntries parent? (ns ++ others) = allEntries parent? ns + allEntries parent? others := by
  induction ns with
  | nil => simp [allEntries]
  | cons n ns ih => rw [List.cons_append, allEntries, ih, allEntries, add_assoc]

@[simp] theorem allEntries_nil (parent? : Option NodeId) : allEntries parent? [] = 0 := rfl

theorem allEntries_singleton (parent? : Option NodeId) (n : Node) :
    allEntries parent? [n] = n.entries parent? := by
  rw [allEntries, allEntries, add_zero]

/-- The nodes with a property and those without it have all entries between them. -/
theorem allEntries_filter (parent? : Option NodeId) (p : Node → Bool) (ns : List Node) :
    allEntries parent? (ns.filter p) + allEntries parent? (ns.filter (!p ·)) =
      allEntries parent? ns := by
  induction ns with
  | nil => rfl
  | cons n ns ih =>
    cases hp : p n <;> simp only [List.filter_cons, hp, allEntries, Bool.not_true, Bool.not_false,
      if_true, Bool.false_eq_true, if_false, ← ih]
    · abel
    · abel

/-- The names of the entries are those of the node and of the nodes below it. -/
theorem map_fst_entries (parent? : Option NodeId) (n : Node) :
    (n.entries parent?).map Prod.fst = (n.ids : Multiset NodeId) := by
  induction n using nested generalizing parent? with
  | leaf head content => simp [entries]
  | block head children ih =>
    have below : (allEntries (some head.id) children).map Prod.fst =
        (children.flatMap ids : Multiset NodeId) := by
      induction children with
      | nil => rfl
      | cons c cs ihs =>
        rw [allEntries, Multiset.map_add, ih c List.mem_cons_self,
          ihs fun c hc => ih c (List.mem_cons_of_mem _ hc), List.flatMap_cons, Multiset.coe_add]
    rw [entries, Multiset.map_cons, below, ids_block, Multiset.cons_coe]

theorem card_entries (parent? : Option NodeId) (n : Node) :
    (n.entries parent?).card = n.ids.length := by
  rw [← Multiset.card_map Prod.fst, map_fst_entries, Multiset.coe_card]

/-! ### Surroundings -/

/-- The name of the innermost block around a node. -/
def above (frames : List NodeFrame) : Option NodeId := frames.head?.map (·.head.id)

/-- The entries of the blocks around a node of a name, with those of their other children. -/
def around : List NodeFrame → NodeId → Multiset (NodeId × Entry)
  | [], _ => 0
  | frame :: frames, id =>
    let names := frame.before.map Node.id ++ id :: frame.after.map Node.id
    (frame.head.id,
        ⟨above frames, frame.head.logical, .block names, frame.head.cache,
          frame.head.listeners⟩) ::ₘ
      (allEntries (some frame.head.id) (frame.before ++ frame.after) + around frames frame.head.id)

/-- Around a node stands the block that has it as a child, with the other children. -/
theorem around_cons (frame : NodeFrame) (frames : List NodeFrame) (n : Node) :
    around (frame :: frames) n.id =
      (frame.head.id, (frame.attach n).entry (above frames)) ::ₘ
        (allEntries (some frame.head.id) (frame.before ++ frame.after) +
          around frames frame.head.id) := by
  simp [around, NodeFrame.attach, entry, head, body]

/-- A node in its surroundings has the entries of both. -/
theorem entries_plug (frames : List NodeFrame) (n : Node) :
    (plug frames n).entries none = n.entries (above frames) + around frames n.id := by
  induction frames generalizing n with
  | nil => rw [plug, around, add_zero, above, List.head?_nil, Option.map_none]
  | cons frame frames ih =>
    have hbelow : allEntries (some frame.head.id) (frame.attach n).children =
        n.entries (some frame.head.id) +
          allEntries (some frame.head.id) (frame.before ++ frame.after) := by
      rw [NodeFrame.attach, children, allEntries_append, allEntries, allEntries_append]
      abel
    rw [plug, ih, entries_eq_cons, NodeFrame.id_attach, hbelow, around_cons,
      ← Multiset.singleton_add,      ← Multiset.singleton_add]
    show _ = n.entries (some frame.head.id) + _
    abel

/-- The entry of a block in its surroundings, and the entries of its children. -/
theorem entries_plug_block (frames : List NodeFrame) (head : Head) (children : List Node) :
    (plug frames (block head children)).entries none =
      (head.id, (block head children).entry (above frames)) ::ₘ
        (allEntries (some head.id) children + around frames head.id) := by
  rw [entries_plug, entries, Multiset.cons_add]
  rfl

end Node

namespace Arena

variable {a : Arena} {parent? : Option NodeId} {es : Multiset (NodeId × Entry)}

/-- Stored nodes have different names. -/
theorem Stores.nodup_ids {n : Node} (h : a.Stores (n.entries parent?)) : n.ids.Nodup := by
  have := h.nodup
  rwa [Node.map_fst_entries, Multiset.coe_nodup] at this

/-! ### One node changes -/

/-- The entry of a node is changed to that of another node with the same name and children. -/
theorem Stores.modify_node {m n : Node} {f : Entry → Entry}
    (h : a.Stores (m.entries parent? + es)) (hid : n.id = m.id)
    (hchildren : n.children = m.children)
    (hentry : f (m.entry parent?) = n.entry parent?) :
    (a.modify m.id f).Stores (n.entries parent? + es) := by
  rw [Node.entries_eq_cons, Multiset.cons_add] at h ⊢
  rw [hid, hchildren, ← hentry]
  exact h.modify f

/-- The entry of a node is changed in its surroundings. -/
theorem Stores.modify_plug {frames : List NodeFrame} {m n : Node} {f : Entry → Entry}
    (h : a.Stores ((Node.plug frames m).entries none)) (hid : n.id = m.id)
    (hchildren : n.children = m.children)
    (hentry : f (m.entry (Node.above frames)) = n.entry (Node.above frames)) :
    (a.modify m.id f).Stores ((Node.plug frames n).entries none) := by
  rw [Node.entries_plug] at h ⊢
  rw [hid]
  exact h.modify_node hid hchildren hentry

/-- The head of a node is changed in its surroundings. -/
theorem Stores.modify_head {frames : List NodeFrame} {n : Node} {f : Entry → Entry}
    {g : Head → Head}
    (h : a.Stores ((Node.plug frames n).entries none)) (hid : (g n.head).id = n.id)
    (hentry : f (n.entry (Node.above frames)) = (n.withHead g).entry (Node.above frames)) :
    (a.modify n.id f).Stores ((Node.plug frames (n.withHead g)).entries none) :=
  h.modify_plug (by rw [Node.id, Node.head_withHead, hid]) (n.children_withHead g) hentry

/-- The children of a block are named anew. -/
theorem Stores.modify_children (head : Head) (children : List Node) {others : List Node}
    {f : Entry → Entry} (h : a.Stores ((head.id, (Node.block head children).entry parent?) ::ₘ es))
    (hf : ∀ e, f e = { e with body := .block (others.map Node.id) }) :
    (a.modify head.id f).Stores ((head.id, (Node.block head others).entry parent?) ::ₘ es) := by
  have := h.modify f
  rwa [hf] at this

/-! ### Conditions come -/

mutual

/-- Inserting a detached condition adds the entries of the node that it is planted as. -/
theorem insert_spec (a : Arena) (parent? : Option NodeId) (es : Multiset (NodeId × Entry))
    (h : a.Stores es) (c : Condition) :
    ∃ b, a.insert parent? c = ((Node.plant a.numbering c).1.id, b) ∧
      b.numbering = (Node.plant a.numbering c).2 ∧
      b.Stores ((Node.plant a.numbering c).1.entries parent? + es) := by
  cases c with
  | leaf logical content =>
    have hnum := Prod.ext_iff.mp (numbering_alloc a { parent?, logical, body := .leaf content })
    simp only at hnum
    refine ⟨_, ?_, hnum.2, ?_⟩
    · rw [insert, Node.plant, Node.id_leaf, ← hnum.1]
    · rw [Node.plant, Node.entries, ← hnum.1, Multiset.singleton_add]
      exact h.alloc _
  | block logical children =>
    let e : Entry := { parent?, logical, body := .block [] }
    have hnum := Prod.ext_iff.mp (numbering_alloc a e)
    simp only at hnum
    obtain ⟨b, hb, hbnum, hbes⟩ :=
      insertAll_spec (a.alloc e).2 (some (a.alloc e).1) _ (h.alloc e) children
    rw [hnum.2] at hb hbnum hbes
    generalize hnodes : Node.plantAll a.numbering.take.2 children = nodes at hb hbnum hbes
    let named (e : Entry) : Entry := { e with body := .block (nodes.1.map Node.id) }
    refine ⟨b.modify (a.alloc e).1 named, ?_, ?_, ?_⟩
    · rw [insert, Node.plant]
      simp only [hnodes, Node.id_block, ← hnum.1]
      rw [show a.alloc { parent?, logical, body := .block [] } = a.alloc e from rfl, hb]
    · rw [numbering_modify, hbnum, ← hnodes, Node.plant]
    · rw [Node.plant]
      simp only [hnodes, ← hnum.1, Node.entries]
      rw [add_comm, Multiset.cons_add] at hbes
      rw [Multiset.cons_add, add_comm]
      exact hbes.modify_children ⟨(a.alloc e).1, logical, none, []⟩ [] fun _ => rfl

/-- Inserting detached conditions adds the entries of the nodes that they are planted as. -/
theorem insertAll_spec (a : Arena) (parent? : Option NodeId) (es : Multiset (NodeId × Entry))
    (h : a.Stores es) (cs : List Condition) :
    ∃ b, a.insertAll parent? cs = ((Node.plantAll a.numbering cs).1.map Node.id, b) ∧
      b.numbering = (Node.plantAll a.numbering cs).2 ∧
      b.Stores (Node.allEntries parent? (Node.plantAll a.numbering cs).1 + es) := by
  cases cs with
  | nil => exact ⟨a, rfl, rfl, by rwa [Node.plantAll, Node.allEntries, zero_add]⟩
  | cons c cs =>
    obtain ⟨b, hb, hbnum, hbes⟩ := insert_spec a parent? es h c
    obtain ⟨d, hd, hdnum, hdes⟩ := insertAll_spec b parent? _ hbes cs
    rw [hbnum] at hd hdnum hdes
    refine ⟨d, ?_, ?_, ?_⟩
    · rw [insertAll, hb]
      simp only [hd, Node.plantAll, List.map_cons]
    · rw [hdnum, Node.plantAll]
    · rw [Node.plantAll, Node.allEntries, add_assoc, add_left_comm]
      exact hdes

end

/-! ### Conditions go -/

theorem extractAll_spec {ns : List Node} {bound : Nat}
    (hextract : ∀ n ∈ ns, ∀ (a : Arena) es, a.Stores (n.entries parent? + es) →
      ∃ b, (∀ levels, bound ≤ levels → extractAt levels a n.id = (some n.toCondition, b)) ∧
        b.numbering = a.numbering.giveBackAll n.ids ∧ b.Stores es)
    (h : a.Stores (Node.allEntries parent? ns + es)) :
    ∃ b, (∀ levels, bound ≤ levels →
        extractAll (extractAt levels) a (ns.map Node.id) = (ns.map Node.toCondition, b)) ∧
      b.numbering = a.numbering.giveBackAll (ns.flatMap Node.ids) ∧ b.Stores es := by
  induction ns generalizing a with
  | nil => exact ⟨a, fun _ _ => rfl, rfl, by rwa [Node.allEntries, zero_add] at h⟩
  | cons n ns ih =>
    rw [Node.allEntries, add_assoc] at h
    obtain ⟨b, hb, hbnum, hbes⟩ := hextract n List.mem_cons_self a _ h
    obtain ⟨d, hd, hdnum, hdes⟩ := ih (fun n hn => hextract n (List.mem_cons_of_mem _ hn)) hbes
    refine ⟨d, ?_, ?_, hdes⟩
    · intro levels hlevels
      rw [List.map_cons, extractAll, hb levels hlevels]
      simp only [hd levels hlevels, Option.toList_some, List.singleton_append, List.map_cons]
    · rw [hdnum, hbnum, List.flatMap_cons, Slots.giveBackAll, Slots.giveBackAll, Slots.giveBackAll,
        List.foldl_append]

/-- Extracting a node takes out its entries and those of the nodes below it, and nothing else. -/
theorem extractAt_spec {n : Node} (h : a.Stores (n.entries parent? + es)) :
    ∃ b, (∀ levels, n.ids.length ≤ levels → extractAt levels a n.id = (some n.toCondition, b)) ∧
      b.numbering = a.numbering.giveBackAll n.ids ∧ b.Stores es := by
  induction n using Node.nested generalizing a parent? es with
  | leaf head content =>
    rw [Node.entries, Multiset.singleton_add] at h
    refine ⟨a.drop head.id, ?_, ?_, h.drop⟩
    · intro levels hlevels
      obtain _ | levels := levels
      · simp at hlevels
      rw [Node.id_leaf, extractAt, release_of_get? h.get?_eq]
      rfl
    · rw [numbering_drop h.get?_eq, Node.ids_leaf]
      rfl
  | block head children ih =>
    rw [Node.entries, Multiset.cons_add] at h
    obtain ⟨b, hb, hbnum, hbes⟩ := extractAll_spec
      (fun c hc a es hes => by
        obtain ⟨b, hb, hrest⟩ := ih c hc hes
        exact ⟨b, fun levels hlevels => hb levels (Nat.le_trans (Node.length_ids_le hc) hlevels),
          hrest⟩)
      h.drop
    refine ⟨b, ?_, ?_, hbes⟩
    · intro levels hlevels
      rw [Node.ids_block, List.length_cons] at hlevels
      obtain _ | levels := levels
      · simp at hlevels
      rw [Node.id_block, extractAt, release_of_get? h.get?_eq]
      simp only [Node.entry, Node.body, hb levels (Nat.le_of_succ_le_succ hlevels),
        Node.toCondition, Node.allToCondition_eq_map]
      rfl
    · rw [hbnum, numbering_drop h.get?_eq, Node.ids_block]
      rfl

end Arena

end EntityQuery
