import EntityQuery.Proofs.Tree.Recompiling
import EntityQuery.Proofs.Tree.WellFormed

/-!
# What conditions mean

The expression of a condition is true of the records of which the condition is true. A condition
without leaves has no expression.

* `Condition.truths_eq_map` — the children that count.
* `Condition.isSome_expr?`, `Condition.test_expr?` — the expression of a condition.
* `Condition.all_test_expr?` — the expression of a block as a filter.
* `Tree.test_compile` — a condition of a tree compiles to an expression that means what the detached
  condition means.
-/

namespace EntityQuery

namespace Condition

/-- Induction on conditions, with the hypothesis for every child of a block. -/
theorem nested {motive : Condition → Prop}
    (leaf : ∀ logical content, motive (.leaf logical content))
    (block : ∀ logical children, (∀ c ∈ children, motive c) → motive (.block logical children))
    (c : Condition) : motive c := by
  refine @Condition.rec motive (fun cs => ∀ c ∈ cs, motive c) leaf block ?_ ?_ c
  · exact List.forall_mem_nil _
  · exact fun first others hfirst hothers => List.forall_mem_cons.mpr ⟨hfirst, hothers⟩

theorem anyHasLeaf_eq_any (cs : List Condition) : anyHasLeaf cs = cs.any hasLeaf := by
  induction cs with
  | nil => rfl
  | cons c cs ih => rw [anyHasLeaf, ih, List.any_cons]

/-- The children that have a leaf count, each with its logical operator. -/
theorem truths_eq_map (r : Record) (cs : List Condition) :
    truths r cs = (cs.filter hasLeaf).map fun c => (c.logical, c.truth r) := by
  induction cs with
  | nil => rfl
  | cons c cs ih =>
    rw [truths, ih]
    cases hc : c.hasLeaf
    · rw [List.filter_cons_of_neg (by rw [hc]; exact Bool.false_ne_true), if_neg Bool.false_ne_true]
    · rw [List.filter_cons_of_pos hc, List.map_cons, if_pos rfl]

/-! ### Expressions of conditions -/

/-- Conditions after an expression have one. -/
theorem isSome_exprs?_some (before : Expr) (cs : List Condition) :
    (exprs? (some before) cs).isSome := by
  induction cs generalizing before with
  | nil => rfl
  | cons c cs ih =>
    rw [exprs?]
    cases c.expr? with
    | none => exact ih before
    | some e => exact ih _

theorem isSome_exprs?_none {cs : List Condition} (hcs : ∀ c ∈ cs, c.expr?.isSome = c.hasLeaf) :
    (exprs? none cs).isSome = cs.any hasLeaf := by
  induction cs with
  | nil => rfl
  | cons c cs ih =>
    have hc := hcs c List.mem_cons_self
    rw [exprs?, List.any_cons, ← hc]
    cases c.expr? with
    | none => exact ih fun c hc => hcs c (List.mem_cons_of_mem _ hc)
    | some e => rw [joinNext, isSome_exprs?_some, Option.isSome_some, Bool.true_or]

/-- A condition has an expression exactly if it has a leaf. -/
theorem isSome_expr? (c : Condition) : c.expr?.isSome = c.hasLeaf := by
  induction c using nested with
  | leaf logical content => rfl
  | block logical children ih => rw [expr?, hasLeaf, anyHasLeaf_eq_any, isSome_exprs?_none ih]

/-- Conditions after an expression are combined with its truth. -/
theorem test_exprs?_some {r : Record} {cs : List Condition}
    (hcs : ∀ c ∈ cs, ∀ e, c.expr? = some e → e.test r = c.truth r) (before : Expr) {e : Expr}
    (h : exprs? (some before) cs = some e) :
    e.test r = (truths r cs).foldl (fun before (op, b) => op.combine before b) (before.test r) := by
  induction cs generalizing before with
  | nil =>
    cases h
    rfl
  | cons c cs ih =>
    have hrest := ih fun c hc => hcs c (List.mem_cons_of_mem _ hc)
    have hleaf := isSome_expr? c
    rw [exprs?] at h
    rw [truths, ← hleaf]
    cases hc : c.expr? with
    | none =>
      rw [hc] at h
      exact hrest before h
    | some e' =>
      rw [hc] at h
      rw [hrest _ h, Option.isSome_some, if_pos rfl, List.foldl_cons, join, Expr.test_combine,
        hcs c List.mem_cons_self e' hc]

theorem test_exprs?_none {r : Record} {cs : List Condition}
    (hcs : ∀ c ∈ cs, ∀ e, c.expr? = some e → e.test r = c.truth r) {e : Expr}
    (h : exprs? none cs = some e) : e.test r = combineAll (truths r cs) := by
  induction cs with
  | nil => cases h
  | cons c cs ih =>
    have hothers : ∀ c ∈ cs, ∀ e, c.expr? = some e → e.test r = c.truth r :=
      fun c hc => hcs c (List.mem_cons_of_mem _ hc)
    have hleaf := isSome_expr? c
    rw [exprs?] at h
    rw [truths, ← hleaf]
    cases hc : c.expr? with
    | none =>
      rw [hc] at h
      exact ih hothers h
    | some e' =>
      rw [hc] at h
      rw [test_exprs?_some hothers _ h, join, hcs c List.mem_cons_self e' hc]
      rfl

/-- The expression of a condition is true where the condition is true. -/
theorem test_expr? {c : Condition} {e : Expr} (h : c.expr? = some e) (r : Record) :
    e.test r = c.truth r := by
  induction c using nested generalizing e with
  | leaf logical content =>
    cases h
    rfl
  | block logical children ih =>
    rw [expr?] at h
    rw [truth, test_exprs?_none (fun c hc e he => ih c hc he) h]

/-- A block without leaves is true. -/
theorem truth_of_no_leaf {logical : Logical} {children : List Condition}
    (h : (block logical children).hasLeaf = false) (r : Record) :
    (block logical children).truth r := by
  rw [hasLeaf, anyHasLeaf_eq_any, List.any_eq_false] at h
  have hnone : children.filter hasLeaf = [] := List.filter_eq_nil_iff.mpr h
  rw [truth, truths_eq_map, hnone]
  rfl

/-- As a filter, the expression of a block keeps the records of which the block is true. -/
theorem all_test_expr? (logical : Logical) (children : List Condition) (r : Record) :
    (block logical children).expr?.all (·.test r) = (block logical children).truth r := by
  cases h : (block logical children).expr? with
  | none =>
    have hleaf := isSome_expr? (block logical children)
    rw [h] at hleaf
    exact (truth_of_no_leaf hleaf.symm r).symm
  | some e => exact test_expr? h r

end Condition

namespace Tree

/-- A condition of a tree that comes about by edits compiles to an expression exactly if it has a
leaf, and that expression is true where the detached condition is true. All children compile. -/
theorem test_compile (factory : OperatorFactory) (edits : List Edit) (id : NodeId)
    (hlive : ((ofFactory factory).run edits).contains id) :
    let t := (ofFactory factory).run edits
    ∃ s c, t.snapshot id = .ok s ∧ t.compile id = .ok c ∧
      (c.expr? = none ↔ s.hasLeaf = false) ∧
      (∀ e, c.expr? = some e → ∀ r, e.test r = s.truth r) ∧
      ∀ child, t.IsChild child id → (t.compile child).isOk ∧ (t.entry child).isOk := by
  intro t
  have hrep := represents_run factory edits
  have hok := hrep.isOk_compile
  have hexpr := hrep.expr?_compile (coherent_run factory edits) id
  obtain ⟨⟨s, hs, -⟩, -⟩ := hrep.wellFormed.walks id hlive _ (Nat.le_refl _)
  cases hc : t.compile id with
  | error e =>
    have hself := hok id
    rw [hlive, show t.compile id = _ from hc] at hself
    cases hself
  | ok c =>
    rw [show ((ofFactory factory).run edits).compile id = _ from hc, hs] at hexpr
    have hexpr : c.expr? = s.expr? := Except.ok.inj hexpr
    refine ⟨s, c, hs, rfl, ?_, ?_, ?_⟩
    · rw [hexpr, ← Condition.isSome_expr?, Option.isSome_eq_false_iff, Option.isNone_iff_eq_none]
    · intro e he r
      exact Condition.test_expr? (hexpr ▸ he) r
    · intro child hchild
      obtain ⟨e, he, -⟩ := hrep.wellFormed.child_parent child id hchild
      refine ⟨?_, ?_⟩
      · rw [hok, Tree.contains, he]
        rfl
      · rw [Tree.entry, he]
        rfl

/-- An active user, or one with the name Ann, who does not live in Rome. The empty block after the
first condition has no expression, and the other three are combined without it. -/
theorem test_compile_mixed :
    let active : Leaf := ⟨⟨"active", .bool, false, "User", 0⟩, .comparison .equal, .bool true⟩
    let ann : Leaf := ⟨⟨"name", .text, false, "User", 0⟩, .comparison .equal, .text "Ann"⟩
    let city : Leaf := ⟨⟨"city", .text, false, "User", 0⟩, .comparison .notEqual, .text "Rome"⟩
    let mixed : Condition :=
      .block .or [.leaf .or active, .block .or [], .leaf .or ann, .leaf .and city]
    let user (active : Bool) (name city : String) : Record :=
      [("active", .bool active), ("name", .text name), ("city", .text city)]
    let t := (ofFactory .standard).run [.add ⟨0, 0⟩ mixed]
    t.contains ⟨1, 0⟩ ∧ t.contains ⟨3, 0⟩ ∧ t.snapshot ⟨1, 0⟩ = .ok mixed ∧
      (∃ c, t.compile ⟨3, 0⟩ = .ok c ∧ c.expr? = none) ∧
      ∃ c e, t.compile ⟨1, 0⟩ = .ok c ∧ c.expr? = some e ∧
        e.test (user false "Ann" "Oslo") ∧ e.test (user true "Bob" "Oslo") ∧
        ¬ e.test (user true "Bob" "Rome") ∧ ¬ e.test (user false "Bob" "Oslo") ∧
        ∀ child, t.IsChild child ⟨1, 0⟩ → (t.compile child).isOk ∧ (t.entry child).isOk := by
  intro active ann city mixed user t
  have hblock : t.contains ⟨1, 0⟩ := by decide
  have hempty : t.contains ⟨3, 0⟩ := by decide
  have hsnapshot : t.snapshot ⟨1, 0⟩ = .ok mixed := rfl
  have hnothing : t.snapshot ⟨3, 0⟩ = .ok (.block .or []) := rfl
  refine ⟨hblock, hempty, hsnapshot, ?_, ?_⟩
  · obtain ⟨s, c, hs, hc, hnone, -⟩ := test_compile .standard _ ⟨3, 0⟩ hempty
    cases hs.symm.trans hnothing
    exact ⟨c, hc, hnone.mpr rfl⟩
  · obtain ⟨s, c, hs, hc, hnone, htest, hchildren⟩ := test_compile .standard _ ⟨1, 0⟩ hblock
    cases hs.symm.trans hsnapshot
    obtain ⟨e, he⟩ := Option.ne_none_iff_exists'.mp fun h => Bool.noConfusion (hnone.mp h)
    have htest := htest e he
    refine ⟨c, e, hc, he, ?_, ?_, ?_, ?_, hchildren⟩
    all_goals
      rw [htest]
      decide

end Tree

end EntityQuery
