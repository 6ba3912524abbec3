import EntityQuery.Proofs.Tree.Interchange
import EntityQuery.Proofs.Value.Comparand

/-!
# Membership and chained equality

To ask whether a property is in a list is to ask for one of several equalities, and to ask whether it
is in no place of the list is to ask for all of several inequalities. The list is asked for the
property, while each equality compares the property with an item, so the two agree because loose
equality is symmetric.

* `Condition.chain` — one comparison for each item of a list.
* `Expr.isAmong` — whether the value of a property is in a list.
* `Condition.truth_membership`, `Condition.truth_chain` — what both forms ask for.
* `Tree.CompilesTo`, `Tree.compilesTo_truth` — the predicate of a condition in a tree.
* `Tree.compilesTo_isAmong` — both forms compile to the same predicate.
-/

namespace EntityQuery

/-- Whether the value of a property is loosely equal to one of the items. -/
def Expr.isAmong (path : Path) (items : List Value) (r : Record) : Bool :=
  items.any ((Expr.property path).eval r).looseEq

namespace Condition

/-- One comparison of a property for each item: equalities joined by or, and negated, inequalities
joined by and. -/
def chain (negated : Bool) (path : Path) (items : List Value) : List Condition :=
  items.map fun item =>
    .leaf (if negated then .and else .or)
      ⟨path, .comparison (if negated then .notEqual else .equal), item⟩

variable {negated : Bool} {path : Path} {item : Value} {items : List Value} {r : Record}
  {logical : Logical}

/-- Membership in a list asks whether the property is among its items. -/
theorem truth_membership :
    (leaf logical ⟨path, .membership negated, .list items⟩).truth r =
      (negated != Expr.isAmong path items r) := by
  have hany : (items.any fun item => item.looseEq ((Expr.property path).eval r)) =
      Expr.isAmong path items r := by
    rw [Expr.isAmong]
    congr 1
    funext item
    exact Value.looseEq_comm item _
  have hcall : (Expr.call .contains [.const (.list items), .property path]).eval r =
      .bool (Expr.isAmong path items r) :=
    congrArg Value.bool hany
  cases negated with
  | false =>
    show (Expr.call .contains [.const (.list items), .property path]).test r = _
    rw [Expr.test, hcall, Bool.false_bne]
    rfl
  | true =>
    show (Expr.not (.call .contains [.const (.list items), .property path])).test r = _
    rw [Expr.test, Expr.eval, hcall]
    cases Expr.isAmong path items r <;> rfl

/-- A comparison of a chain asks whether the property is equal to its item. -/
theorem truth_comparison (logical : Logical) (negated : Bool) (path : Path) (item : Value)
    (r : Record) :
    (leaf logical ⟨path, .comparison (if negated then .notEqual else .equal), item⟩).truth r =
      (negated != ((Expr.property path).eval r).looseEq item) := by
  cases negated with
  | false => exact (Expr.test_compare .equal _ _ r).trans (Bool.false_bne _).symm
  | true => exact (Expr.test_compare .notEqual _ _ r).trans (Bool.true_bne _).symm

/-- Truths are joined by or, and their negations by and. -/
theorem joinTruth_negated (a b : Bool) :
    joinTruth (negated != a) (if negated then .and else .or, negated != b) =
      (negated != (a || b)) := by
  cases negated <;> cases a <;> cases b <;> rfl

/-- A chain after a truth joins to it whether the property is among the items. -/
theorem foldl_chain (b : Bool) :
    (truths r (chain negated path items)).foldl joinTruth (negated != b) =
      (negated != (b || Expr.isAmong path items r)) := by
  -- what the comparisons so far have found stays negated as a whole, whichever operator joins them
  induction items generalizing b with
  | nil =>
    rw [Expr.isAmong, List.any_nil, Bool.or_false]
    rfl
  | cons item items ih =>
    have hnext : truths r (chain negated path (item :: items)) =
        (if negated then .and else .or, negated != ((Expr.property path).eval r).looseEq item) ::
          truths r (chain negated path items) := by
      rw [← truth_comparison (if negated then .and else .or)]
      rfl
    rw [hnext, List.foldl_cons, joinTruth_negated, ih, Expr.isAmong, Expr.isAmong, List.any_cons,
      Bool.or_assoc]

/-- A block with a chain asks whether the property is among the items. The logical operator of its
first comparison does not count. -/
theorem truth_chain {first : Logical} :
    (block logical (leaf first
        ⟨path, .comparison (if negated then .notEqual else .equal), item⟩ ::
      chain negated path items)).truth r =
      (negated != Expr.isAmong path (item :: items) r) := by
  rw [truth, truths, hasLeaf, if_pos rfl, truth_comparison first negated path item r]
  exact foldl_chain _

end Condition

namespace Tree

/-- A condition of a tree compiles to an expression that is true where the predicate is. -/
def CompilesTo (t : Tree) (id : NodeId) (p : Record → Bool) : Prop :=
  ∃ c e, t.compile id = .ok c ∧ c.expr? = some e ∧ ∀ r, e.test r = p r

/-- A condition with a leaf in a tree that comes about by edits compiles to the truth of the detached
condition. -/
theorem compilesTo_truth {factory : OperatorFactory} {edits : List Edit} {id : NodeId}
    {s : Condition} (hs : ((ofFactory factory).run edits).snapshot id = .ok s)
    (hleaf : s.hasLeaf = true) :
    ((ofFactory factory).run edits).CompilesTo id fun r => s.truth r := by
  have hexpr := (represents_run factory edits).expr?_compile (coherent_run factory edits) id
  obtain ⟨e, he⟩ := Option.isSome_iff_exists.mp ((Condition.isSome_expr? s).trans hleaf)
  rw [hs] at hexpr
  cases hc : ((ofFactory factory).run edits).compile id with
  | error failure =>
    rw [hc] at hexpr
    cases hexpr
  | ok c =>
    rw [hc] at hexpr
    have hsame : c.expr? = s.expr? := Except.ok.inj hexpr
    exact ⟨c, e, hc, hsame.trans he, Condition.test_expr? he⟩

/-- A membership of a property in a list and a chain of comparisons with its items compile to the
same predicate, wherever they stand in trees that come about by edits: it asks whether the property
is among the items, or among none of them if both are negated. -/
theorem compilesTo_isAmong (factory factory' : OperatorFactory) (edits edits' : List Edit)
    (id id' : NodeId) (negated : Bool) (path : Path) (item : Value) (items : List Value)
    (logical logical' first : Logical)
    (hmembership : ((ofFactory factory).run edits).snapshot id =
      .ok (.leaf logical ⟨path, .membership negated, .list (item :: items)⟩))
    (hchain : ((ofFactory factory').run edits').snapshot id' =
      .ok (.block logical' (.leaf first
          ⟨path, .comparison (if negated then .notEqual else .equal), item⟩ ::
        Condition.chain negated path items))) :
    let p := fun r => negated != Expr.isAmong path (item :: items) r
    ((ofFactory factory).run edits).CompilesTo id p ∧
      ((ofFactory factory').run edits').CompilesTo id' p := by
  have hleft := compilesTo_truth hmembership rfl
  have hright := compilesTo_truth hchain rfl
  simp only [Condition.truth_membership] at hleft
  simp only [Condition.truth_chain] at hright
  exact ⟨hleft, hright⟩

/-- A number, a number of another variant, and null. -/
theorem compilesTo_isAmong_numbers :
    let path : Path := ⟨"age", .signed .w32, true, "User", 0⟩
    let items : List Value := [.uint 2, .null]
    let membership : Condition := .leaf .or ⟨path, .membership true, .list (.int 1 :: items)⟩
    let chain : Condition := .block .and (.leaf .or ⟨path, .comparison .notEqual, .int 1⟩ ::
      Condition.chain true path items)
    let t := (ofFactory .standard).run [.add ⟨0, 0⟩ membership, .add ⟨0, 0⟩ chain]
    let p := fun r => true != Expr.isAmong path (.int 1 :: items) r
    t.snapshot ⟨1, 0⟩ = .ok membership ∧ t.snapshot ⟨2, 0⟩ = .ok chain ∧
      t.CompilesTo ⟨1, 0⟩ p ∧ t.CompilesTo ⟨2, 0⟩ p :=
  ⟨rfl, rfl, compilesTo_isAmong _ _ _ _ _ _ true _ _ _ _ _ _ rfl rfl⟩

end Tree

end EntityQuery
