import EntityQuery.Proofs.Tree.Grouping

/-!
# Edits of trees are edits of outlines

Every edit of a tree that represents an outline is the edit of the outline: it gives the same answer
or fails for the same reason, listeners hear the same events, and the tree after it represents the
outline after it.

* `Represents.call` — one edit.
* `Represents.after`, `Represents.run` — the tree after an edit, and after a list of them.
* `represents_run` — the tree after a list of edits of the tree without conditions.
-/

namespace EntityQuery

namespace Represents

variable {t : Tree} {o : Outline}

theorem compile (h : Represents t o) (id : NodeId) :
    Simulates (Edit.compile id).call t
      ((o.compile id).map fun c => ⟨.compiled c.expr? c.built, c.result, []⟩) := by
  have hcompile := h.compile_spec id
  cases hc : o.compile id with
  | error e =>
    rw [hc] at hcompile
    show (Edit.compile id).call t = _
    simp only [Edit.call, show t.compile id = _ from hcompile]
  | ok c =>
    rw [hc] at hcompile
    obtain ⟨a, ha, hrep⟩ := hcompile
    refine ⟨{ t with arena := a }, ?_, hrep, (List.append_nil _).symm⟩
    simp only [Edit.call, ha]

/-- An edit of a tree is the edit of the outline. -/
theorem call (h : Represents t o) (e : Edit) : Simulates e.call t (o.perform e) := by
  cases e with
  | add block c => exact (h.add block c).map _
  | remove id => exact (h.remove id).map _
  | createNew block path operator? value? =>
    exact (h.createNew block path operator? value?).map _
  | createFromTemplate block => exact (h.createFromTemplate block).map _
  | group block candidates => exact (h.group block candidates).map _
  | ungroup block candidates => exact (h.ungroup block candidates).map _
  | clear block => exact (h.clear block).map _
  | setProperty id path => exact (h.setProperty id path).map _
  | setOperator id operator => exact (h.setOperator id operator).map _
  | setValue id value => exact (h.setValue id value).map _
  | setRaw id raw => exact (h.setRaw id raw).map _
  | setLogical id logical => exact (h.setLogical id logical).map _
  | subscribe id => exact (h.subscribe id).map _
  | unsubscribe id listener => exact (h.unsubscribe id listener).map _
  | compile id => exact h.compile id

/-- The tree after an edit represents the outline after it. -/
theorem after (h : Represents t o) (e : Edit) : Represents (t.after e) (o.after e) := by
  have hcall := h.call e
  rw [Tree.after, Tree.perform, Tree.outcome, Outline.after]
  cases hx : o.perform e with
  | error e' =>
    rw [hx] at hcall
    rw [show e.call t = _ from hcall]
    exact h
  | ok x =>
    rw [hx] at hcall
    obtain ⟨u, hu, hrep, -⟩ := hcall
    rw [hu]
    exact hrep

/-- The tree after a list of edits represents the outline after it. -/
theorem run (h : Represents t o) (edits : List Edit) : Represents (t.run edits) (o.run edits) := by
  induction edits generalizing t o with
  | nil => exact h
  | cons e edits ih => exact ih (h.after e)

end Represents

/-- Every tree that comes about by edits represents the outline that comes about by them. -/
theorem represents_run (factory : OperatorFactory) (edits : List Edit) :
    Represents ((Tree.ofFactory factory).run edits) ((Outline.ofFactory factory).run edits) :=
  (represents_ofFactory factory).run edits

end EntityQuery
