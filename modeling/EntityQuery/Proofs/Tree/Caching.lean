import EntityQuery.Proofs.Tree.Clearing
import EntityQuery.Proofs.Tree.Refinement

/-!
# Edits keep remembered expressions right

Every edit keeps an outline coherent: what becomes wrong by an edit is the node from which
expressions are forgotten upwards, or above it.

* `Outline.Keeps` — an edit leaves a coherent outline.
* `Outline.Silent.coherent`, `Outline.Clears.coherent` — both kinds of steps do.
* `Outline.Step.coherent`, `Outline.keeps_perform` — every edit does.
* `coherent_run` — a list of edits of the outline without conditions leaves a coherent outline.
-/

namespace EntityQuery

/-- Listeners do not matter for coherence. -/
theorem Node.coherent_listeners {n : Node} (f : List Nat → List Nat) (h : n.Coherent) :
    (n.withHead fun head => { head with listeners := f head.listeners }).Coherent := by
  have hself := h n n.mem_toList_self
  cases n with
  | leaf head content => exact coherent_leaf.mpr hself
  | block head children => exact coherent_block.mpr ⟨hself, fun c hc => h.child hc⟩

namespace Outline

variable {o p : Outline} {e : Edit} {x : Outcome EditAnswer}

/-- A step without a change keeps the detached conditions, and their expressions. -/
theorem Silent.coherent (hsilent : o.Silent p) (h : o.root.Coherent) : p.root.Coherent := by
  obtain ⟨frames, m, n, ho, hp, hn⟩ := hsilent
  rw [ho] at h
  rw [hp]
  have hm : m.Coherent := fun k hk => h k (Node.mem_toList_plug_of_mem hk)
  rcases hn with rfl | ⟨f, rfl⟩
  · obtain ⟨-, hcoherent, hsame⟩ := Node.compile_spec hm
    exact Node.coherent_plug h hcoherent hsame
  · exact Node.coherent_plug h (Node.coherent_listeners f hm) (by cases m <;> rfl)

/-- All that may have become wrong by a change is forgotten. -/
theorem Clears.coherent {start : NodeId} (hclears : o.Clears p start) (h : o.root.Coherent) :
    p.root.Coherent := by
  intro k hk
  by_cases hstart : start ∈ k.ids
  · exact Node.coherentAt_of_cache (hclears.cleared k hk hstart)
  · rcases hclears.beyond k hk hstart with hold | ⟨hcache, -⟩
    · exact h k hold
    · exact Node.coherentAt_of_cache hcache

/-- Every step leaves a coherent outline, if the names in it differ. -/
theorem Step.coherent (hstep : o.Step e x) (hnodup : o.root.ids.Nodup) (h : o.root.Coherent)
    (hafter : x.outline.root.ids.Nodup) : x.outline.root.Coherent := by
  obtain ⟨-, hsilent⟩ | ⟨-, start, -, -, hclears⟩ := hstep.silent_or_clears hnodup hafter
  · exact hsilent.coherent h
  · exact hclears.coherent h

/-- An edit that succeeds leaves a coherent outline, if the names in it differ. -/
def Keeps {α : Type} (x : Except ConditionError (Outcome α)) : Prop :=
  ∀ y, x = .ok y → y.outline.root.ids.Nodup → y.outline.root.Coherent

theorem keeps_perform (hnodup : o.root.ids.Nodup) (h : o.root.Coherent) (e : Edit) :
    Keeps (o.perform e) :=
  fun _ hx hafter => (step_perform hnodup hx).coherent hnodup h hafter

end Outline

/-- A list of edits leaves a coherent outline. -/
theorem Represents.coherent_run {t : Tree} {o : Outline} (hrep : Represents t o)
    (h : o.root.Coherent) (edits : List Edit) : (o.run edits).root.Coherent := by
  induction edits generalizing t o with
  | nil => exact h
  | cons e edits ih =>
    have hafter := hrep.after e
    refine ih hafter ?_
    have hnodup := hafter.nodup
    rw [Outline.after] at hnodup ⊢
    cases hx : o.perform e with
    | error _ => exact h
    | ok x =>
      rw [hx] at hnodup
      exact Outline.keeps_perform hrep.nodup h e x hx hnodup

/-- Every outline that comes about by edits is coherent. -/
theorem coherent_run (factory : OperatorFactory) (edits : List Edit) :
    ((Outline.ofFactory factory).run edits).root.Coherent :=
  (represents_ofFactory factory).coherent_run
    (Node.coherent_block.mpr ⟨Node.coherentAt_of_cache rfl, List.forall_mem_nil _⟩) edits

end EntityQuery
