import EntityQuery.Proofs.Tree.Caching

/-!
# No remembered expression is stale

A tree that comes about by edits compiles as if it remembered nothing.

* `Tree.forgetful` — the tree without any remembered expression.
* `Represents.forgetful` — it represents the outline without remembered expressions.
* `Tree.compile_eq_forgetful` — both compile alike, to the expression of the detached condition.
-/

namespace EntityQuery

/-- The entry without a remembered expression. -/
def Entry.forgetful (e : Entry) : Entry := { e with cache := none }

/-- The arena without any remembered expression. -/
def Arena.forgetful (a : Arena) : Arena :=
  { a with slots := a.slots.map fun s => { s with entry? := s.entry?.map Entry.forgetful } }

/-- The tree without any remembered expression. -/
def Tree.forgetful (t : Tree) : Tree := { t with arena := t.arena.forgetful }

namespace Node

mutual

/-- The node without any remembered expression. -/
def forgetful : Node → Node
  | .leaf head content => .leaf head.uncached content
  | .block head children => .block head.uncached (allForgetful children)

/-- Nodes without any remembered expression. -/
def allForgetful : List Node → List Node
  | [] => []
  | n :: ns => forgetful n :: allForgetful ns

end

theorem allForgetful_eq_map (ns : List Node) : allForgetful ns = ns.map forgetful := by
  induction ns with
  | nil => rfl
  | cons n ns ih => rw [allForgetful, ih, List.map_cons]

@[simp] theorem id_forgetful (n : Node) : n.forgetful.id = n.id := by
  cases n <;> rfl

/-- A node keeps its detached condition. -/
theorem toCondition_forgetful (n : Node) : n.forgetful.toCondition = n.toCondition := by
  induction n using nested with
  | leaf head content => rfl
  | block head children ih =>
    rw [forgetful, toCondition, toCondition, allToCondition_eq_map, allToCondition_eq_map,
      allForgetful_eq_map, List.map_map]
    exact congrArg _ (List.map_congr_left ih)

theorem toList_forgetful (n : Node) : n.forgetful.toList = n.toList.map forgetful := by
  induction n using nested with
  | leaf head content => rfl
  | block head children ih =>
    rw [toList_block, forgetful, toList_block, allForgetful_eq_map, List.flatMap_map, List.map_cons,
      List.map_flatMap, forgetful, allForgetful_eq_map]
    exact congrArg _ (List.flatMap_congr ih)

/-- Without remembered expressions a node is coherent. -/
theorem coherent_forgetful (n : Node) : n.forgetful.Coherent := by
  intro k hk
  rw [toList_forgetful] at hk
  obtain ⟨m, -, rfl⟩ := List.mem_map.mp hk
  exact coherentAt_of_cache (by cases m <;> rfl)

theorem ids_forgetful (n : Node) : n.forgetful.ids = n.ids := by
  rw [ids, ids, toList_forgetful, List.map_map]
  exact List.map_congr_left fun k _ => id_forgetful k

/-- Forgetting some expressions and then all is forgetting all. -/
theorem forgetful_touch (start : NodeId) (n : Node) : (n.touch start).forgetful = n.forgetful := by
  induction n using nested with
  | leaf head content =>
    rw [touch]
    split_ifs <;> rfl
  | block head children ih =>
    rw [touch]
    split_ifs
    · rfl
    · rw [touchAll_eq_map, forgetful, forgetful, allForgetful_eq_map, allForgetful_eq_map,
        List.map_map]
      exact congrArg _ (List.map_congr_left ih)
    · rfl

mutual

/-- Remembering expressions and then forgetting all is forgetting all. -/
theorem forgetful_compile (n : Node) : n.compile.result.forgetful = n.forgetful := by
  cases n with
  | leaf head content =>
    rw [compile]
    split <;> rfl
  | block head children =>
    rw [compile]
    split
    · rfl
    · rw [forgetful, forgetful, allForgetful_eq_map, allForgetful_eq_map,
        map_forgetful_compileAll]
      rfl

theorem map_forgetful_compileAll (before? : Option Expr) (ns : List Node) :
    (compileAll before? ns).result.map forgetful = ns.map forgetful := by
  cases ns with
  | nil => rfl
  | cons n ns =>
    rw [compileAll, List.map_cons, List.map_cons, forgetful_compile n,
      map_forgetful_compileAll _ ns]

end

theorem find?_forgetful (id : NodeId) (n : Node) :
    n.forgetful.find? id = (n.find? id).map forgetful := by
  rw [find?, find?, toList_forgetful, List.find?_map]
  simp only [Function.comp_def, id_forgetful]

theorem entries_forgetful (parent? : Option NodeId) (n : Node) :
    n.forgetful.entries parent? = (n.entries parent?).map fun x => (x.1, x.2.forgetful) := by
  induction n using nested generalizing parent? with
  | leaf head content => rfl
  | block head children ih =>
    have below : allEntries (some head.id) (children.map forgetful) =
        (allEntries (some head.id) children).map fun x => (x.1, x.2.forgetful) := by
      induction children with
      | nil => rfl
      | cons c cs ihs =>
        rw [List.map_cons, allEntries, allEntries, Multiset.map_add, ih c List.mem_cons_self,
          ihs fun c hc => ih c (List.mem_cons_of_mem _ hc)]
    have hnames : (children.map forgetful).map Node.id = children.map Node.id := by
      rw [List.map_map]
      exact List.map_congr_left fun c _ => id_forgetful c
    rw [forgetful, allForgetful_eq_map, entries, entries, Multiset.map_cons, entry, body, hnames]
    exact congrArg _ below

end Node

namespace Arena

theorem get?_forgetful (a : Arena) (id : NodeId) :
    a.forgetful.get? id = (a.get? id).map Entry.forgetful := by
  rw [get?_def, get?_def, forgetful, List.getElem?_map]
  cases a.slots[id.index]? with
  | none => rfl
  | some s =>
    simp only [Option.map_some, Option.bind_some]
    split <;> rfl

theorem numbering_forgetful (a : Arena) : a.forgetful.numbering = a.numbering := by
  simp [numbering, forgetful, Function.comp_def]

theorem Stores.forgetful {a : Arena} {es : Multiset (NodeId × Entry)} (h : a.Stores es) :
    a.forgetful.Stores (es.map fun x => (x.1, x.2.forgetful)) where
  tidy := h.tidy.of_numbering a.numbering_forgetful fun i => by
    rw [get?_forgetful, Option.isSome_map]
  nodup := by
    rw [Multiset.map_map]
    exact h.nodup
  mem id e := by
    rw [get?_forgetful, Option.map_eq_some_iff, Multiset.mem_map]
    constructor
    · rintro ⟨f, hf, rfl⟩
      exact ⟨(id, f), (h.mem id f).mp hf, rfl⟩
    · rintro ⟨⟨i, f⟩, hf, heq⟩
      cases heq
      exact ⟨f, (h.mem i f).mpr hf, rfl⟩

end Arena

namespace Represents

variable {t : Tree} {o : Outline}

/-- Without remembered expressions a tree represents the outline without them. -/
theorem forgetful (h : Represents t o) :
    Represents t.forgetful { o with root := o.root.forgetful } where
  stores := by
    rw [Node.entries_forgetful]
    exact h.stores.forgetful
  slots := t.arena.numbering_forgetful.trans h.slots
  root := h.root.trans o.root.id_forgetful.symm
  isBlock := by
    have := h.isBlock
    cases hn : o.root with
    | leaf head content => rw [hn] at this; cases this
    | block head children => rfl
  factory := h.factory
  nextListener := h.nextListener

theorem snapshot_forgetful (h : Represents t o) (id : NodeId) :
    t.forgetful.snapshot id = t.snapshot id := by
  rw [h.snapshot_eq, h.forgetful.snapshot_eq, Outline.node, Outline.node, Node.find?_forgetful]
  cases o.root.find? id with
  | none => rfl
  | some n => exact congrArg Except.ok n.toCondition_forgetful

/-- A tree that represents a coherent outline compiles to the expressions of its detached
conditions. -/
theorem expr?_compile (h : Represents t o) (hcoherent : o.root.Coherent) (id : NodeId) :
    (t.compile id).map (·.expr?) = (t.snapshot id).map Condition.expr? := by
  have hcompile := h.compile_spec id
  rw [h.snapshot_eq]
  rw [Outline.compile] at hcompile
  cases hn : o.node id with
  | error e =>
    rw [hn] at hcompile
    rw [show t.compile id = _ from hcompile]
    rfl
  | ok n =>
    rw [hn] at hcompile
    obtain ⟨a, ha, -⟩ := hcompile
    obtain ⟨frames, hroot, -⟩ := Outline.exists_plug_of_node h.nodup hn
    have hnode : n.Coherent := fun k hk =>
      hcoherent k (hroot ▸ Node.mem_toList_plug_of_mem hk)
    rw [ha]
    exact congrArg Except.ok (Node.compile_spec hnode).1

/-- A condition in use compiles to the expression of its detached condition. -/
theorem compile_live (h : Represents t o) (hcoherent : o.root.Coherent) {id : NodeId}
    (hid : t.contains id) :
    ∃ n c, o.node id = .ok n ∧ t.compile id = .ok c ∧ c.expr? = n.toCondition.expr? := by
  have hexpr := h.expr?_compile hcoherent id
  have hok := h.isOk_compile id
  rw [h.snapshot_eq] at hexpr
  rw [hid] at hok
  cases hc : t.compile id with
  | error e =>
    rw [hc] at hok
    cases hok
  | ok c =>
    rw [hc] at hexpr
    cases hn : o.node id with
    | error e =>
      rw [hn] at hexpr
      cases hexpr
    | ok n =>
      rw [hn] at hexpr
      exact ⟨n, c, rfl, rfl, Except.ok.inj hexpr⟩

end Represents

namespace Tree

/-- Every condition of a tree that comes about by edits compiles, and to the same expression as in
the tree without remembered expressions: that of the detached condition. -/
theorem compile_eq_forgetful (factory : OperatorFactory) (edits : List Edit) (id : NodeId) :
    let t := (ofFactory factory).run edits
    (t.compile id).isOk = t.contains id ∧
      (t.compile id).map (·.expr?) = (t.forgetful.compile id).map (·.expr?) ∧
      (t.compile id).map (·.expr?) = (t.snapshot id).map Condition.expr? := by
  intro t
  have hrep := represents_run factory edits
  have hcoherent := coherent_run factory edits
  have hself := hrep.expr?_compile hcoherent id
  have hforgetful := hrep.forgetful.expr?_compile (Node.coherent_forgetful _) id
  refine ⟨hrep.isOk_compile id, ?_, hself⟩
  rw [hforgetful, hself, hrep.snapshot_forgetful]

end Tree

end EntityQuery
