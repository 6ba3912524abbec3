import EntityQuery.Proofs.Operator.Domain

/-!
# Values that are fitted

An operator at hand brings every value into its domain and leaves the values of the domain alone, so
to choose an operator again changes nothing, neither after it was chosen before nor after it has read
a value.

* `Kind.accepts_zero` — the value of an untouched member.
* `BuiltIn.admits_defaultValue` — fitted values.
* `BuiltIn.defaultValue_of_admits` — values of the domain.
* `BuiltIn.fits` — what follows for choosing an operator again.
-/

namespace EntityQuery

/-- The value of an untouched member is one of its kind, if an enumeration has variants. -/
theorem Kind.accepts_zero {k : Kind} (hk : ∀ name, k ≠ .enum name []) : k.accepts k.zero := by
  obtain hnull | haccepts := k.zero_eq_null_or_accepts
  · cases k with
    | enum name variants =>
      cases variants with
      | nil => exact absurd rfl (hk name)
      | cons first rest => cases hnull
    | _ => cases hnull
  · exact haccepts

namespace Operator

variable {k : Kind} {nullable : Bool} {items : List Value}

theorem assignable_scalarDefault (hk : ∀ name, k ≠ .enum name []) (nullable : Bool) (v : Value) :
    k.assignable nullable (scalarDefault k nullable v) := by
  obtain hzero | hassignable := scalarDefault_eq_zero_or_assignable k nullable v
  · rw [hzero]
    exact Kind.assignable_of_accepts (Kind.accepts_zero hk)
  · exact hassignable

/-- A list of values that a member can hold is left alone. -/
theorem listDefault_of_assignable (h : ∀ item ∈ items, k.assignable nullable item) :
    listDefault k nullable (.list items) = .list items := by
  have hfit : (items.map id).mapM (fitItem? k nullable) = some (items.map id) :=
    mapM_map_eq_pure fun item hitem => if_pos (h item hitem)
  rw [List.map_id] at hfit
  show Value.list ((items.mapM (fitItem? k nullable)).getD []) = .list items
  rw [hfit, Option.getD_some]

end Operator

namespace BuiltIn

variable {b : BuiltIn} {k : Kind} {nullable : Bool} {v : Value}

/-- Whatever value a condition has, the operator fits it to its domain. -/
theorem admits_defaultValue (hk : ∀ name, k ≠ .enum name []) (b : BuiltIn) (nullable : Bool)
    (v : Value) : b.admits k nullable (b.operator.defaultValue k nullable v) := by
  cases b with
  | membership negated =>
    obtain ⟨items, hlist, hitems⟩ := Operator.exists_listDefault k nullable v
    have hdefault : (membership negated).operator.defaultValue k nullable v = .list items := hlist
    rw [hdefault]
    exact admits_list hitems
  | comparison c => exact Operator.assignable_scalarDefault hk nullable v
  | pattern negated => exact Operator.assignable_scalarDefault hk nullable v

/-- The operator leaves the values of its domain alone. -/
theorem defaultValue_of_admits (h : b.admits k nullable v) :
    b.operator.defaultValue k nullable v = v := by
  cases b with
  | membership negated =>
    cases v with
    | list items => exact Operator.listDefault_of_assignable (List.all_eq_true.mp h)
    | _ => cases h
  | comparison c => exact Operator.scalarDefault_of_assignable h
  | pattern negated => exact Operator.scalarDefault_of_assignable h

/-- How an operator deals with the values of conditions on a property: every value is brought into the
domain, those of the domain are left alone, and so is a value that was fitted before or that was read
from raw input. -/
structure Fits (b : BuiltIn) (k : Kind) (nullable : Bool) : Prop where
  admitted : ∀ v, b.admits k nullable (b.operator.defaultValue k nullable v)
  kept : ∀ v, b.admits k nullable v → b.operator.defaultValue k nullable v = v
  again : ∀ v, b.operator.defaultValue k nullable (b.operator.defaultValue k nullable v) =
    b.operator.defaultValue k nullable v
  read : ∀ raw v, b.operator.parseRaw? k raw = some v →
    b.admits k nullable v ∧ b.operator.defaultValue k nullable v = v

/-- All operators at hand fit values to properties of every kind, nullable or not, except for
enumerations without variants. -/
theorem fits (k : Kind) (hk : ∀ name, k ≠ .enum name []) (nullable : Bool) (b : BuiltIn) :
    b.Fits k nullable where
  admitted := admits_defaultValue hk b nullable
  kept _ := defaultValue_of_admits
  again v := defaultValue_of_admits (admits_defaultValue hk b nullable v)
  read _ _ h := ⟨admits_of_parseRaw? h, defaultValue_of_admits (admits_of_parseRaw? h)⟩

/-- Membership in a list of levels. -/
theorem fits_levels :
    (∀ name, Kind.enum "Level" ["low", "high"] ≠ .enum name []) ∧
      (membership true).Fits (.enum "Level" ["low", "high"]) false := by
  have hk : ∀ name, Kind.enum "Level" ["low", "high"] ≠ .enum name [] := fun name h =>
    List.cons_ne_nil _ _ (Kind.enum.inj h).2
  exact ⟨hk, fits _ hk false (membership true)⟩

end BuiltIn

end EntityQuery
