import Mathlib.Data.Fintype.Card
import Mathlib.Logic.Relation
import EntityQuery.Proofs.Entity.Typing

/-!
# Untouched data

An entity of a type that has entities at all is untouched member by member: the number of entity
types is enough for the nesting.

* `EntityModel.Holds` — an entity type that occurs in every entity of another one.
* `EntityModel.acc_of_typed` — no type of an entity occurs in itself.
* `EntityModel.untouched_entity` — the members of an untouched entity are untouched.
-/

namespace EntityQuery

/-- The entity type that occurs in every datum of a type. -/
def MemberType.held? {n : Nat} : MemberType n → Option (Fin n)
  | .boxed t => t.held?
  | .entity target => some target
  | _ => none

namespace EntityModel

/-- Every entity of the second type has an entity of the first type in one of its members. -/
def Holds (m : EntityModel) (inner outer : m.Ty) : Prop :=
  ∃ decl ∈ (m.decl outer).members, decl.type.held? = some inner

/-- The entity types that occur in every entity of a type, at any depth. -/
noncomputable def heldBelow (m : EntityModel) (e : m.Ty) : Finset m.Ty :=
  open Classical in Finset.univ.filter (Relation.TransGen m.Holds · e)

variable {m : EntityModel} {e : m.Ty}

theorem mem_heldBelow {inner : m.Ty} :
    inner ∈ m.heldBelow e ↔ Relation.TransGen m.Holds inner e := by
  simp [heldBelow]

/-- In a type that has data no type occurs in itself. -/
theorem acc_of_typed {t : MemberType m.size} {d : Datum} (h : m.Typed t d)
    (hheld : t.held? = some e) : Acc m.Holds e := by
  induction h generalizing e with
  | scalar | absent | present | list => cases hheld
  | boxed _ ih => exact ih hheld
  | @entity e members hlength _ ih =>
    cases hheld
    apply Acc.intro
    rintro inner ⟨decl, hdecl, hheld⟩
    obtain ⟨i, hi, rfl⟩ := List.getElem_of_mem hdecl
    have hzip : ((m.decl e).members[i], members[i]) ∈ (m.decl e).members.zip members :=
      List.mem_iff_getElem.mpr ⟨i, by rw [List.length_zip]; omega, by rw [List.getElem_zip]⟩
    exact ih _ hzip hheld

/-- A type in which no type occurs in itself is not below itself. -/
theorem not_mem_heldBelow_self (h : Acc m.Holds e) : e ∉ m.heldBelow e := by
  rw [mem_heldBelow]
  intro hself
  have hacc : Acc (Relation.TransGen m.Holds) e := h.transGen
  clear h
  induction hacc with
  | intro e _ ih => exact ih e hself hself

theorem card_heldBelow_lt (h : Acc m.Holds e) : (m.heldBelow e).card < m.size := by
  have hlt := Finset.card_lt_univ_of_notMem (not_mem_heldBelow_self h)
  rwa [Fintype.card_fin] at hlt

/-- Fewer types occur below a type that is held. -/
theorem card_heldBelow_lt_of_holds {inner : m.Ty} (h : Acc m.Holds e) (hholds : m.Holds inner e) :
    (m.heldBelow inner).card < (m.heldBelow e).card := by
  apply Finset.card_lt_card
  constructor
  · intro f hf
    rw [mem_heldBelow] at hf ⊢
    exact hf.tail hholds
  · intro hsubset
    have hmem : inner ∈ m.heldBelow e := mem_heldBelow.mpr (.single hholds)
    exact not_mem_heldBelow_self (h.inv hholds) (hsubset hmem)

/-- The nesting matters for the entity that a type holds only. -/
theorem untouchedAt_congr {k l : Nat} {t : MemberType m.size}
    (h : ∀ inner, t.held? = some inner →
      m.untouchedAt k (.entity inner) = m.untouchedAt l (.entity inner)) :
    m.untouchedAt k t = m.untouchedAt l t := by
  induction t with
  | scalar t => rw [untouchedAt, untouchedAt]
  | option t => rw [untouchedAt, untouchedAt]
  | boxed t ih =>
    rw [untouchedAt, untouchedAt]
    exact ih h
  | list element t => rw [untouchedAt, untouchedAt]
  | entity target => exact h target rfl

/-- Nesting that is deeper than the types below a type makes no difference. -/
theorem untouchedAt_entity (h : Acc m.Holds e) {k l : Nat} (hk : (m.heldBelow e).card < k)
    (hl : (m.heldBelow e).card < l) :
    m.untouchedAt k (.entity e) = m.untouchedAt l (.entity e) := by
  induction h generalizing k l with
  | intro e hinner ih =>
    obtain _ | k := k
    · exact absurd hk (Nat.not_lt_zero _)
    obtain _ | l := l
    · exact absurd hl (Nat.not_lt_zero _)
    rw [untouchedAt, untouchedAt]
    refine congrArg Datum.entity (List.map_congr_left fun decl hdecl => untouchedAt_congr ?_)
    intro inner hheld
    have hholds : m.Holds inner e := ⟨decl, hdecl, hheld⟩
    have hless := card_heldBelow_lt_of_holds (Acc.intro e hinner) hholds
    exact ih inner hholds (by omega) (by omega)

/-- The members of an untouched entity are untouched. -/
theorem untouched_entity (h : Acc m.Holds e) :
    m.untouched (.entity e) = .entity ((m.decl e).members.map fun d => m.untouched d.type) := by
  have hsize := card_heldBelow_lt h
  have hdeeper : m.untouched (.entity e) = m.untouchedAt (m.size + 1) (.entity e) :=
    untouchedAt_entity h hsize (by omega)
  rw [hdeeper, untouchedAt]
  rfl

end EntityModel

end EntityQuery
