import EntityQuery.Proofs.Tree.Meaning
import Mathlib.Data.List.Perm.Basic

/-!
# Conditions that can stand for one another

Two conditions are alike if they join alike, count alike and are true of the same records. A
condition can take the place of one that is alike, however deep it stands. In a block the children
with one logical operator can change places, and can be put into a block of their own.

* `Condition.combineAll_exchange`, `Condition.combineAll_nest` — truths with one logical operator.
* `Condition.Alike` — conditions that can stand for one another; `Condition.alike_exchange`,
  `Condition.alike_nest` for blocks.
* `Node.alike_plug` — a node takes the place of one that is alike.
* `Tree.filter?`, `Tree.FiltersLike` — the filter of a tree, and trees with the same one.
* `Represents.filtersLike` — trees with roots that are alike have the same filter.
-/

namespace EntityQuery

namespace Logical

/-- The truth value that changes nothing. -/
def neutral : Logical → Bool
  | .and => true
  | .or => false

theorem neutral_combine (op : Logical) (b : Bool) : op.combine op.neutral b = b := by
  cases op <;> cases b <;> rfl

theorem combine_neutral (op : Logical) (b : Bool) : op.combine b op.neutral = b := by
  cases op <;> cases b <;> rfl

theorem combine_assoc (op : Logical) (a b c : Bool) :
    op.combine (op.combine a b) c = op.combine a (op.combine b c) := by
  cases op <;> cases a <;> cases b <;> rfl

theorem combine_right_comm (op : Logical) (a b c : Bool) :
    op.combine (op.combine a b) c = op.combine (op.combine a c) b := by
  cases op <;> cases a <;> cases b <;> cases c <;> rfl

end Logical

namespace Condition

/-! ### Truths with one logical operator -/

/-- A truth joined to the one before it. -/
def joinTruth (before : Bool) (x : Logical × Bool) : Bool := x.1.combine before x.2

variable {op : Logical} {xs ys ys' zs : List (Logical × Bool)}

/-- Truths behind others are joined to them one by one. -/
theorem combineAll_append (h : xs ≠ []) (ys : List (Logical × Bool)) :
    combineAll (xs ++ ys) = ys.foldl joinTruth (combineAll xs) := by
  obtain ⟨x, xs, rfl⟩ := List.exists_cons_of_ne_nil h
  exact List.foldl_append

/-- The first truth alone is that truth joined to one that changes nothing. -/
theorem combineAll_cons {x : Logical × Bool} (hx : x.1 = op) (xs : List (Logical × Bool)) :
    combineAll (x :: xs) = (x :: xs).foldl joinTruth op.neutral := by
  have hfirst : joinTruth op.neutral x = x.2 := by
    rw [joinTruth, hx, Logical.neutral_combine]
  rw [List.foldl_cons, hfirst]
  rfl

theorem foldl_exchange (hys : ∀ y ∈ ys, y.1 = op) (hperm : ys.Perm ys') (b : Bool) :
    ys.foldl joinTruth b = ys'.foldl joinTruth b := by
  refine hperm.foldl_eq' ?_ b
  intro x hx y hy z
  rw [joinTruth, joinTruth, joinTruth, joinTruth, hys x hx, hys y hy, Logical.combine_right_comm]

/-- Truths with one logical operator can change places, wherever they stand. -/
theorem combineAll_exchange (hys : ∀ y ∈ ys, y.1 = op) (hperm : ys.Perm ys') :
    combineAll (xs ++ ys ++ zs) = combineAll (xs ++ ys' ++ zs) := by
  by_cases hxs : xs = []
  · subst hxs
    cases ys with
    | nil => rw [hperm.nil_eq]
    | cons y ys =>
      cases ys' with
      | nil => exact absurd hperm.eq_nil (List.cons_ne_nil y ys)
      | cons y' ys' =>
        -- the first truth may be another one, so it is joined to what changes nothing
        have hy' := hys y' (hperm.mem_iff.mpr List.mem_cons_self)
        simp only [List.nil_append, List.cons_append]
        rw [combineAll_cons (hys y List.mem_cons_self), combineAll_cons hy', ← List.cons_append,
          ← List.cons_append, List.foldl_append, List.foldl_append, foldl_exchange hys hperm]
  · rw [List.append_assoc, List.append_assoc, combineAll_append hxs, combineAll_append hxs,
      List.foldl_append, List.foldl_append, foldl_exchange hys hperm]

theorem foldl_combine (hys : ∀ y ∈ ys, y.1 = op) (a b : Bool) :
    ys.foldl joinTruth (op.combine a b) = op.combine a (ys.foldl joinTruth b) := by
  induction ys generalizing b with
  | nil => rfl
  | cons y ys ih =>
    have hy : joinTruth (op.combine a b) y = op.combine a (joinTruth b y) := by
      rw [joinTruth, joinTruth, hys y List.mem_cons_self, Logical.combine_assoc]
    rw [List.foldl_cons, hy, ih (fun y hy => hys y (List.mem_cons_of_mem _ hy)), List.foldl_cons]

/-- Truths with one logical operator are joined as one truth. -/
theorem foldl_nest (hys : ∀ y ∈ ys, y.1 = op) (hne : ys ≠ []) (b : Bool) :
    ys.foldl joinTruth b = op.combine b (combineAll ys) := by
  obtain ⟨y, ys, rfl⟩ := List.exists_cons_of_ne_nil hne
  rw [combineAll_cons (hys y List.mem_cons_self), ← foldl_combine hys, Logical.combine_neutral]

/-- Truths with one logical operator can be taken together, wherever they stand. -/
theorem combineAll_nest (hys : ∀ y ∈ ys, y.1 = op) (hne : ys ≠ []) :
    combineAll (xs ++ ys ++ zs) = combineAll (xs ++ (op, combineAll ys) :: zs) := by
  by_cases hxs : xs = []
  · rw [hxs, List.nil_append, combineAll_append hne]
    rfl
  · rw [List.append_assoc, combineAll_append hxs, combineAll_append hxs, List.foldl_append,
      foldl_nest hys hne, List.foldl_cons, joinTruth]

/-! ### Conditions that are alike -/

/-- Two conditions join alike, have both a leaf or both none, and are true of the same records. -/
structure Alike (c d : Condition) : Prop where
  logical : c.logical = d.logical
  hasLeaf : c.hasLeaf = d.hasLeaf
  truth (r : Record) : c.truth r = d.truth r

theorem Alike.refl (c : Condition) : c.Alike c := ⟨rfl, rfl, fun _ => rfl⟩

theorem Alike.symm {c d : Condition} (h : c.Alike d) : d.Alike c :=
  ⟨h.logical.symm, h.hasLeaf.symm, fun r => (h.truth r).symm⟩

theorem Alike.trans {c d e : Condition} (h : c.Alike d) (h' : d.Alike e) : c.Alike e :=
  ⟨h.logical.trans h'.logical, h.hasLeaf.trans h'.hasLeaf,
    fun r => (h.truth r).trans (h'.truth r)⟩

variable {cs ds before inner inner' mixed mixed' after : List Condition}

theorem truths_append (r : Record) (cs ds : List Condition) :
    truths r (cs ++ ds) = truths r cs ++ truths r ds := by
  rw [truths_eq_map, truths_eq_map, truths_eq_map, List.filter_append, List.map_append]

/-- The truths of children with one logical operator have that operator. -/
theorem logical_of_mem_truths {r : Record} (h : ∀ c ∈ cs, c.logical = op) :
    ∀ x ∈ truths r cs, x.1 = op := by
  intro x hx
  rw [truths_eq_map] at hx
  obtain ⟨c, hc, rfl⟩ := List.mem_map.mp hx
  exact h c (List.mem_of_mem_filter hc)

theorem truths_eq_nil_iff {r : Record} : truths r cs = [] ↔ cs.any hasLeaf = false := by
  rw [truths_eq_map, List.map_eq_nil_iff, List.filter_eq_nil_iff, List.any_eq_false]

theorem alike_block (logical : Logical) (hleaf : cs.any hasLeaf = ds.any hasLeaf)
    (h : ∀ r, combineAll (truths r cs) = combineAll (truths r ds)) :
    (block logical cs).Alike (block logical ds) where
  logical := rfl
  hasLeaf := by rw [Condition.hasLeaf, Condition.hasLeaf, anyHasLeaf_eq_any, anyHasLeaf_eq_any,
    hleaf]
  truth r := by rw [Condition.truth, Condition.truth, h r]

/-- A child can take the place of one that is alike. -/
theorem alike_child (logical : Logical) {c d : Condition} (h : c.Alike d) :
    (block logical (before ++ c :: after)).Alike (block logical (before ++ d :: after)) := by
  refine alike_block logical ?_ ?_
  · rw [List.any_append, List.any_append, List.any_cons, List.any_cons, h.hasLeaf]
  · intro r
    rw [truths_append, truths_append, truths, truths, h.hasLeaf, h.logical, h.truth r]

/-- Children with one logical operator can change places. Only children with a leaf count. -/
theorem alike_exchange (logical : Logical) (hcs : cs.filter hasLeaf = before ++ mixed ++ after)
    (hds : ds.filter hasLeaf = before ++ mixed' ++ after) (hperm : mixed.Perm mixed')
    (hmixed : ∀ c ∈ mixed, c.logical = op) :
    (block logical cs).Alike (block logical ds) := by
  have hany (cs : List Condition) : cs.any hasLeaf = (cs.filter hasLeaf).any hasLeaf := by
    rw [List.any_filter]
    simp
  refine alike_block logical ?_ ?_
  · rw [hany cs, hany ds, hcs, hds]
    simp only [List.any_append, hperm.any_eq]
  · intro r
    rw [truths_eq_map, truths_eq_map, hcs, hds]
    simp only [List.map_append]
    have htruths : ∀ x ∈ mixed.map fun c => (c.logical, c.truth r), x.1 = op := by
      intro x hx
      obtain ⟨c, hc, rfl⟩ := List.mem_map.mp hx
      exact hmixed c hc
    exact combineAll_exchange htruths (hperm.map _)

/-- Children with one logical operator that stand together can change places. -/
theorem alike_reorder (logical : Logical) (before after : List Condition)
    (hperm : inner.Perm inner') (hinner : ∀ c ∈ inner, c.logical = op) :
    (block logical (before ++ inner ++ after)).Alike (block logical (before ++ inner' ++ after)) := by
  have hcs : (before ++ inner ++ after).filter hasLeaf =
      before.filter hasLeaf ++ inner.filter hasLeaf ++ after.filter hasLeaf := by
    rw [List.filter_append, List.filter_append]
  have hds : (before ++ inner' ++ after).filter hasLeaf =
      before.filter hasLeaf ++ inner'.filter hasLeaf ++ after.filter hasLeaf := by
    rw [List.filter_append, List.filter_append]
  exact alike_exchange logical hcs hds (hperm.filter hasLeaf)
    fun c hc => hinner c (List.mem_of_mem_filter hc)

/-- Children with one logical operator can be put into a block with that operator. -/
theorem alike_nest (logical : Logical) (before after : List Condition)
    (hinner : ∀ c ∈ inner, c.logical = op) :
    (block logical (before ++ inner ++ after)).Alike
      (block logical (before ++ block op inner :: after)) := by
  have hleaf : (block op inner).hasLeaf = inner.any hasLeaf := by
    rw [hasLeaf, anyHasLeaf_eq_any]
  refine alike_block logical ?_ ?_
  · rw [List.any_append, List.any_append, List.any_append, List.any_cons, hleaf, Bool.or_assoc]
  · intro r
    rw [truths_append, truths_append, truths_append, truths, hleaf]
    cases hany : inner.any hasLeaf with
    | false => rw [truths_eq_nil_iff.mpr hany, List.append_nil, if_neg Bool.false_ne_true]
    | true =>
      have hne : truths r inner ≠ [] := by
        rw [Ne, truths_eq_nil_iff, hany]
        exact Bool.noConfusion
      rw [if_pos rfl, combineAll_nest (logical_of_mem_truths hinner) hne]
      rfl

end Condition

namespace Node

theorem toCondition_attach_eq (frame : NodeFrame) (n : Node) :
    (frame.attach n).toCondition = .block frame.head.logical
      (frame.before.map toCondition ++ n.toCondition :: frame.after.map toCondition) := by
  rw [NodeFrame.attach, toCondition, allToCondition_eq_map, List.map_append, List.map_cons]

/-- A node can take the place of one that is alike. -/
theorem alike_plug (frames : List NodeFrame) {m n : Node}
    (h : m.toCondition.Alike n.toCondition) :
    (plug frames m).toCondition.Alike (plug frames n).toCondition := by
  induction frames generalizing m n with
  | nil => exact h
  | cons frame frames ih =>
    refine ih ?_
    rw [toCondition_attach_eq, toCondition_attach_eq]
    exact Condition.alike_child _ h

theorem toCondition_touch (start : NodeId) (n : Node) :
    (n.touch start).toCondition = n.toCondition := by
  rw [← toCondition_forgetful, forgetful_touch, toCondition_forgetful]

end Node

/-! ### Filters of trees -/

namespace Tree

/-- The filter that the root of a tree compiles to; without leaves there is none. -/
def filter? (t : Tree) : Except ConditionError (Option (Record → Bool)) :=
  (t.compile t.root).map fun c => c.expr?.map Expr.test

/-- Two trees compile to the same filter, or both to none. -/
def FiltersLike (t u : Tree) : Prop :=
  ∃ filter?, t.filter? = .ok filter? ∧ u.filter? = .ok filter?

end Tree

namespace Represents

variable {t u : Tree} {o p : Outline}

/-- The entry of a node has its logical operator. -/
theorem logical_entry (h : Represents t o) {frames : List NodeFrame} {n : Node}
    (hroot : o.root = Node.plug frames n) :
    (t.entry n.id).map (·.logical) = .ok n.head.logical := by
  rw [Tree.entry, (h.includes hroot).get?_eq]
  rfl

/-- The entry of a child has the logical operator with which the child is joined. -/
theorem logical_child (h : Represents t o) {frames : List NodeFrame} {head : Head}
    {children : List Node} {n : Node} (hroot : o.root = Node.plug frames (.block head children))
    (hn : n ∈ children) : (t.entry n.id).map (·.logical) = .ok n.toCondition.logical := by
  obtain ⟨before, after, rfl⟩ := List.append_of_mem hn
  have hplug : o.root = Node.plug (⟨head, before, after⟩ :: frames) n := hroot
  rw [h.logical_entry hplug, n.logical_toCondition]

/-- The filter of a tree is true of the records of which its root is true. -/
theorem filter?_eq (h : Represents t o) (hcoherent : o.root.Coherent) :
    t.filter? = .ok (if o.root.toCondition.hasLeaf then some fun r => o.root.toCondition.truth r
      else none) := by
  have hexpr := h.expr?_compile hcoherent t.root
  rw [h.snapshot_eq, h.node_root] at hexpr
  cases hc : t.compile t.root with
  | error cause =>
    rw [hc] at hexpr
    cases hexpr
  | ok c =>
    rw [hc] at hexpr
    have hexpr : c.expr? = o.root.toCondition.expr? := Except.ok.inj hexpr
    have hleaf := Condition.isSome_expr? o.root.toCondition
    rw [Tree.filter?, hc]
    show Except.ok (c.expr?.map Expr.test) = _
    rw [hexpr, ← hleaf]
    cases he : o.root.toCondition.expr? with
    | none => rfl
    | some e =>
      have htest : e.test = fun r => o.root.toCondition.truth r :=
        funext fun r => Condition.test_expr? he r
      rw [Option.map_some, htest]
      rfl

/-- Trees whose roots are alike have the same filter. -/
theorem filtersLike (h : Represents t o) (hu : Represents u p) (hcoherent : o.root.Coherent)
    (hcoherent' : p.root.Coherent) (halike : o.root.toCondition.Alike p.root.toCondition) :
    t.FiltersLike u := by
  refine ⟨_, h.filter?_eq hcoherent, ?_⟩
  rw [hu.filter?_eq hcoherent', halike.hasLeaf]
  simp only [halike.truth]

end Represents

end EntityQuery
