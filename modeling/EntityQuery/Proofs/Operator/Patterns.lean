import EntityQuery.Proofs.List.Mapping
import EntityQuery.Proofs.Operator.Domain
import EntityQuery.Proofs.Query.Answers
import Mathlib.Logic.Function.Iterate

/-!
# Patterns are added once

Patterns come after the operators that a factory offers, and only for keys that it does not offer
yet. So adding them again changes nothing, and the plan of a query may be told any number of times
whether texts can be matched with patterns.

* `OperatorFactory.Supplements` — a list of operators with others behind it, for new keys only.
* `OperatorFactory.supplements_foldl`, `OperatorFactory.contains_foldl`,
  `OperatorFactory.foldl_addNew_eq_self` — operators that are added one after the other.
* `OperatorFactory.WithPatterns` — a factory with the operators of another one, and patterns.
* `OperatorFactory.withPatterns_withPatterns` — patterns are added once.
* `Plan.factory_build` — the factory of a planned query.
* `OperatorFactory.patterns_once` — adding patterns, any number of times and in any plan.
-/

namespace EntityQuery

namespace OperatorFactory

variable {operators extras : List Operator} {op : Operator}

/-! ### Operators that are added -/

/-- A list has an operator if one of its operators has the same key. -/
theorem contains_iff_mem_keys :
    operators.contains op = true ↔ op.key ∈ operators.map (·.key) := by
  rw [List.contains_iff_exists_mem_beq, List.mem_map]
  constructor
  · rintro ⟨other, hother, hsame⟩
    exact ⟨other, hother, (Operator.beq_iff.mp hsame).symm⟩
  · rintro ⟨other, hother, hsame⟩
    exact ⟨other, hother, Operator.beq_iff.mpr hsame.symm⟩

/-- Some of the extra operators, in their order, come after the other ones. None of them has the key
of an operator before it. -/
def Supplements (operators extras others : List Operator) : Prop :=
  ∃ added, added.Sublist extras ∧ others = operators ++ added ∧ (added.map (·.key)).Nodup ∧
    ∀ op ∈ added, op.key ∉ operators.map (·.key)

theorem supplements_foldl (operators extras : List Operator) :
    Supplements operators extras (extras.foldl addNew operators) := by
  induction extras generalizing operators with
  | nil => exact ⟨[], List.Sublist.refl _, (List.append_nil _).symm, List.nodup_nil, nofun⟩
  | cons op extras ih =>
    obtain ⟨added, hsub, heq, hnodup, hnew⟩ := ih (addNew operators op)
    rw [List.foldl_cons, heq]
    rw [addNew] at hnew ⊢
    split at hnew
    · next hold =>
      rw [if_pos hold]
      exact ⟨added, hsub.cons op, rfl, hnodup, hnew⟩
    · next hfresh =>
      rw [contains_iff_mem_keys] at hfresh
      simp only [List.map_append, List.mem_append, not_or, List.map_singleton,
        List.mem_singleton] at hnew
      refine ⟨op :: added, hsub.cons_cons op, ?_, ?_, ?_⟩
      · rw [if_neg (mt contains_iff_mem_keys.mp hfresh), List.append_assoc, List.singleton_append]
      · rw [List.map_cons, List.nodup_cons]
        refine ⟨fun hmem => ?_, hnodup⟩
        obtain ⟨other, hother, hkey⟩ := List.mem_map.mp hmem
        exact (hnew other hother).2 hkey
      · exact List.forall_mem_cons.mpr ⟨hfresh, fun other hother => (hnew other hother).1⟩

theorem prefix_foldl (operators extras : List Operator) :
    operators <+: extras.foldl addNew operators := by
  induction extras generalizing operators with
  | nil => exact List.prefix_rfl
  | cons op extras ih => exact (prefix_addNew operators op).trans (ih _)

/-- All operators that were added are in the list, up to their keys. -/
theorem contains_foldl (operators : List Operator) (h : op ∈ extras) :
    (extras.foldl addNew operators).contains op := by
  induction extras generalizing operators with
  | nil => cases h
  | cons extra extras ih =>
    rcases List.mem_cons.mp h with rfl | h
    · obtain ⟨other, hother, hsame⟩ :=
        List.contains_iff_exists_mem_beq.mp (contains_addNew operators op)
      exact List.contains_iff_exists_mem_beq.mpr
        ⟨other, (prefix_foldl _ extras).subset hother, hsame⟩
    · exact ih _ h

/-- Operators that are in the list are not added. -/
theorem foldl_addNew_eq_self (h : ∀ op ∈ extras, operators.contains op) :
    extras.foldl addNew operators = operators := by
  induction extras with
  | nil => rfl
  | cons op extras ih =>
    rw [List.forall_mem_cons] at h
    rw [List.foldl_cons, addNew, if_pos h.1, ih h.2]

/-! ### Patterns -/

/-- The patterns that make sense for a kind: both for texts, and none for other kinds. -/
def patternsFor (k : Kind) : List Operator :=
  if k = .text then [.pattern false, .pattern true] else []

variable {inner : OperatorFactory}

theorem offer_withPatterns (inner : OperatorFactory) (k : Kind) :
    inner.withPatterns.offer k = (patternsFor k).foldl addNew (inner.offer k) := by
  cases k <;> rfl

/-- A factory offers the operators of another one, and after them the patterns that are missing. -/
structure WithPatterns (inner outer : OperatorFactory) : Prop where
  /-- For every kind, patterns come after the other operators, and only with new keys. -/
  supplements (k : Kind) : Supplements (inner.offer k) (patternsFor k) (outer.offer k)
  /-- Both patterns are offered for texts, up to their keys. -/
  contains (negated : Bool) : (outer.offer .text).contains (.pattern negated)
  /-- They are the patterns themselves if all other operators for texts are at hand. -/
  mem (h : AtHand (inner.offer .text)) (negated : Bool) : .pattern negated ∈ outer.offer .text
  /-- If there is a first operator, new conditions still get it. -/
  default (path : Path) (op : Operator) (h : (inner.offer path.kind).head? = some op) :
    outer.defaultFor? path = some op

theorem withPatterns_spec (inner : OperatorFactory) : inner.WithPatterns inner.withPatterns := by
  have hcontains (negated : Bool) :
      (inner.withPatterns.offer .text).contains (.pattern negated) := by
    rw [offer_withPatterns]
    exact contains_foldl _ (by cases negated <;> simp [patternsFor])
  refine ⟨fun k => ?_, hcontains, fun h negated => ?_, fun path op h => ?_⟩
  · rw [offer_withPatterns]
    exact supplements_foldl _ _
  · -- operators at hand with the same key are the same
    obtain ⟨other, hother, hsame⟩ := List.contains_iff_exists_mem_beq.mp (hcontains negated)
    have hall : AtHand (inner.withPatterns.offer .text) :=
      (h.addNew (.pattern false)).addNew (.pattern true)
    obtain ⟨b, rfl⟩ := hall other hother
    have hb : .pattern negated = b := BuiltIn.eq_of_key_eq (Operator.beq_iff.mp hsame)
    rwa [← hb] at hother
  · show (inner.withPatterns.offer path.kind).head? = some op
    rw [offer_withPatterns]
    obtain ⟨added, hadded⟩ := prefix_foldl (inner.offer path.kind) (patternsFor path.kind)
    rw [← hadded, List.head?_append, h]
    rfl

/-- Patterns are added once. -/
theorem withPatterns_withPatterns (inner : OperatorFactory) :
    inner.withPatterns.withPatterns = inner.withPatterns := by
  have hoffer : inner.withPatterns.withPatterns.offer = inner.withPatterns.offer := by
    funext k
    rw [offer_withPatterns]
    refine foldl_addNew_eq_self fun op hop => ?_
    rw [offer_withPatterns]
    exact contains_foldl _ hop
  -- a factory with patterns goes by the kind alone
  show ({ offer := inner.withPatterns.withPatterns.offer } : OperatorFactory) =
    { offer := inner.withPatterns.offer }
  rw [hoffer]

theorem iterate_withPatterns (inner : OperatorFactory) (n : Nat) :
    withPatterns^[n + 1] inner = inner.withPatterns := by
  induction n with
  | zero => rfl
  | succ n ih => rw [Function.iterate_succ_apply', ih, withPatterns_withPatterns]

end OperatorFactory

/-! ### Plans -/

/-- The factory that is given in a step. -/
def PlanStep.factory? : PlanStep → Option OperatorFactory
  | .factory f => some f
  | _ => none

/-- The settings that a plan follows in a step. -/
def PlanStep.settings? : PlanStep → Option Settings
  | .settings s => some s
  | _ => none

namespace Plan

theorem factory_ofSteps (steps : List PlanStep) :
    (ofSteps steps).factory = (steps.filterMap PlanStep.factory?).getLastD .standard := by
  refine foldl_eq_getLastD factory (fun t _ p => ?_) {}
  cases t <;> rfl

theorem patternOperators_ofSteps (steps : List PlanStep) :
    (ofSteps steps).patternOperators =
      ((steps.filterMap PlanStep.settings?).map (·.patternOperators)).getLastD false := by
  rw [List.map_filterMap]
  refine foldl_eq_getLastD patternOperators (fun t _ p => ?_) {}
  cases t <;> rfl

/-- A planned query has the factory that was given last, with patterns if the settings that were
given last want them. -/
theorem factory_build {m : EntityModel} {e : m.Ty} {steps : List PlanStep} {q : Query m}
    (h : (ofSteps steps).build m e = .ok q) :
    q.conditions.factory =
      if ((steps.filterMap PlanStep.settings?).map (·.patternOperators)).getLastD false then
        ((steps.filterMap PlanStep.factory?).getLastD .standard).withPatterns
      else (steps.filterMap PlanStep.factory?).getLastD .standard := by
  rw [← factory_ofSteps, ← patternOperators_ofSteps]
  rw [build] at h
  split at h
  · cases h
  · split at h
    · cases h
    · cases h
      rfl

end Plan

/-- Patterns are added to the operators of a factory after those that it offers, and once, however
often they are added. A planned query offers the operators of the factory that was given last, with
patterns just in case the settings that were given last want them. -/
theorem OperatorFactory.patterns_once (inner : OperatorFactory) :
    inner.WithPatterns inner.withPatterns ∧
      (∀ n, withPatterns^[n + 1] inner = inner.withPatterns) ∧
      ∀ (m : EntityModel) (e : m.Ty) (steps : List PlanStep) (q : Query m),
        (Plan.ofSteps steps).build m e = .ok q →
          let factory := (steps.filterMap PlanStep.factory?).getLastD .standard
          let wanted :=
            ((steps.filterMap PlanStep.settings?).map (·.patternOperators)).getLastD false
          q.conditions.factory = if wanted then factory.withPatterns else factory :=
  ⟨inner.withPatterns_spec, inner.iterate_withPatterns, fun _ _ _ _ h => Plan.factory_build h⟩

/-- The same plan with two settings in either order: the last of them decides on patterns. A pattern
that is offered already stays where it is, and the other one is added. -/
theorem OperatorFactory.patterns_once_addressBook :
    let person : Query.addressBook.Ty := (0 : Fin 2)
    let source : PlanStep := .source (.memory Query.addressBook person [])
    let few : OperatorFactory := fixed [.pattern true, .comparison .equal]
    let on : PlanStep := .settings { patternOperators := true }
    let off : PlanStep := .settings { patternOperators := false }
    (∃ q, (Plan.ofSteps [off, on, source, .factory few, on]).build Query.addressBook person = .ok q ∧
        (q.conditions.factory.offer .text).map (·.name) = ["not like", "==", "like"]) ∧
      ∃ q, (Plan.ofSteps [on, source, .factory few, on, off]).build Query.addressBook person =
          .ok q ∧
        (q.conditions.factory.offer .text).map (·.name) = ["not like", "=="] := by
  intro person source few on off
  obtain ⟨-, -, hplans⟩ := patterns_once few
  refine ⟨⟨_, rfl, ?_⟩, ⟨_, rfl, ?_⟩⟩
  · rw [hplans Query.addressBook person [off, on, source, .factory few, on] _ rfl]
    decide
  · rw [hplans Query.addressBook person [on, source, .factory few, on, off] _ rfl]
    decide

end EntityQuery
