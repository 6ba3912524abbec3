import EntityQuery.Operator.Factory
import EntityQuery.Proofs.List.Mapping
import EntityQuery.Proofs.Value.Conversion

/-!
# Domains of operators

Every operator at hand has a domain: the values that it can compare a property with. Whatever value
a condition has, the operator fits it to the domain when it is chosen, except that a property of an
enumeration without variants has no value but null; and the values that it reads from raw input are
in the domain.

* `BuiltIn` — the operators at hand, as data.
* `BuiltIn.admits`, `Operator.Admits` — the domain of an operator.
* `BuiltIn.defaultValue_eq_null_or_admits`, `BuiltIn.admits_of_parseRaw?` — fitted and read values.
* `OperatorFactory.Offers`, `OperatorFactory.Lawful` — factories that offer operators at hand.
-/

namespace EntityQuery

/-- The operators at hand. -/
inductive BuiltIn where
  | comparison (c : Comparison)
  | membership (negated : Bool)
  | pattern (negated : Bool)
  deriving DecidableEq, Repr

namespace BuiltIn

/-- The operator. -/
def operator : BuiltIn → Operator
  | .comparison c => .comparison c
  | .membership negated => .membership negated
  | .pattern negated => .pattern negated

/-- The domain: for memberships lists of values that a member can hold, and for other operators
those values. -/
def admits (k : Kind) (nullable : Bool) : BuiltIn → Value → Bool
  | .membership _, .list items => items.all (k.assignable nullable)
  | .membership _, _ => false
  | .comparison _, v | .pattern _, v => k.assignable nullable v

/-- The key of an operator at hand says which one it is. -/
theorem eq_of_key_eq {a b : BuiltIn} (h : a.operator.key = b.operator.key) : a = b := by
  have hmethods : Method.contains.name ≠ Method.like.name := by decide
  cases a <;> cases b <;> simp_all [operator, Operator.comparison, Operator.membership,
    Operator.pattern, Ne.symm]

end BuiltIn

/-! ### Values that operators make -/

namespace Operator

variable {k : Kind} {nullable : Bool}

/-- A value fitted to a property is one that a member can hold, or else the value of an untouched
member. -/
theorem scalarDefault_eq_zero_or_assignable (k : Kind) (nullable : Bool) (v : Value) :
    scalarDefault k nullable v = k.zero ∨ k.assignable nullable (scalarDefault k nullable v) := by
  rw [scalarDefault]
  split
  next hassignable => exact Or.inr hassignable
  next =>
    split
    next w hcoerce => exact Or.inr (Kind.assignable_of_accepts (Kind.accepts_of_coerce? hcoerce))
    next =>
      split
      next hnullable => exact Or.inr hnullable
      next => exact Or.inl rfl

/-- A value fitted to a property is one that a member can hold. For an enumeration without variants
there is none, and the fitted value is null. -/
theorem scalarDefault_eq_null_or_assignable (k : Kind) (nullable : Bool) (v : Value) :
    scalarDefault k nullable v = .null ∨ k.assignable nullable (scalarDefault k nullable v) := by
  obtain hzero | hassignable := scalarDefault_eq_zero_or_assignable k nullable v
  · rw [hzero]
    exact k.zero_eq_null_or_accepts.imp_right Kind.assignable_of_accepts
  · exact Or.inr hassignable

theorem assignable_of_fitItem? {item v : Value} (h : fitItem? k nullable item = some v) :
    k.assignable nullable v := by
  rw [fitItem?] at h
  split at h
  next hassignable =>
    cases h
    exact hassignable
  next => exact Kind.assignable_of_accepts (Kind.accepts_of_coerce? h)

/-- A list fitted to a property has items that a member can hold. -/
theorem exists_listDefault (k : Kind) (nullable : Bool) (v : Value) :
    ∃ items, listDefault k nullable v = .list items ∧
      ∀ item ∈ items, k.assignable nullable item := by
  refine ⟨_, rfl, ?_⟩
  cases hitems : (v.asList?.getD []).mapM (fitItem? k nullable) with
  | none => exact List.forall_mem_nil _
  | some items => exact forall_mem_of_mapM (fun _ _ => assignable_of_fitItem?) hitems

theorem accepts_of_parseItem? {raw : String} {v : Value} (h : parseItem? k raw = some v) :
    k.accepts v := by
  rw [parseItem?] at h
  split at h
  next htext =>
    cases h
    rw [htext]
    rfl
  next => exact Kind.accepts_of_parse? h

theorem accepts_of_parseItems? {raw : String} {items : List Value}
    (h : parseItems? k raw = some items) : ∀ item ∈ items, k.accepts item := by
  rw [parseItems?] at h
  split at h
  · cases h
    exact List.forall_mem_nil _
  · exact forall_mem_of_mapM (fun _ _ => accepts_of_parseItem?) h

/-- The domain of an operator at hand; no other operator has one. -/
def Admits (op : Operator) (k : Kind) (nullable : Bool) (v : Value) : Prop :=
  ∃ b : BuiltIn, op = b.operator ∧ b.admits k nullable v

end Operator

namespace BuiltIn

variable {k : Kind} {nullable : Bool}

theorem admits_list {negated : Bool} {items : List Value}
    (h : ∀ item ∈ items, k.assignable nullable item) :
    (membership negated).admits k nullable (.list items) :=
  List.all_eq_true.mpr h

/-- Whatever value a condition has, the operator fits it to its domain. -/
theorem defaultValue_eq_null_or_admits (b : BuiltIn) (k : Kind) (nullable : Bool) (v : Value) :
    b.operator.defaultValue k nullable v = .null ∨
      b.admits k nullable (b.operator.defaultValue k nullable v) := by
  cases b with
  | membership negated =>
    obtain ⟨items, hlist, hitems⟩ := Operator.exists_listDefault k nullable v
    have hdefault : (membership negated).operator.defaultValue k nullable v = .list items := hlist
    rw [hdefault]
    exact Or.inr (admits_list hitems)
  | comparison c => exact Operator.scalarDefault_eq_null_or_assignable k nullable v
  | pattern negated => exact Operator.scalarDefault_eq_null_or_assignable k nullable v

/-- What the operator reads from raw input is in its domain, for nullable properties and for
others. -/
theorem admits_of_parseRaw? {b : BuiltIn} {raw : String} {v : Value}
    (h : b.operator.parseRaw? k raw = some v) : b.admits k nullable v := by
  cases b with
  | membership negated =>
    obtain ⟨items, hitems, rfl⟩ := Option.map_eq_some_iff.mp h
    exact admits_list fun item hitem =>
      Kind.assignable_of_accepts (Operator.accepts_of_parseItems? hitems item hitem)
  | comparison c => exact Kind.assignable_of_accepts (Kind.accepts_of_parse? h)
  | pattern negated => exact Kind.assignable_of_accepts (Kind.accepts_of_parse? h)

end BuiltIn

/-! ### Factories -/

namespace OperatorFactory

/-- All of the operators are at hand. -/
def AtHand (operators : List Operator) : Prop := ∀ op ∈ operators, ∃ b : BuiltIn, op = b.operator

/-- An operator at hand is offered for a property: its key is among those of the operators that the
factory offers. -/
structure Offers (factory : OperatorFactory) (path : Path) (op : Operator) : Prop where
  atHand : ∃ b : BuiltIn, op = b.operator
  contains : (factory.offerFor path).contains op

/-- A factory that offers operators at hand. The operator of a new condition is one of those that
are offered for its property. -/
structure Lawful (factory : OperatorFactory) : Prop where
  atHand : ∀ path, AtHand (factory.offerFor path)
  default : ∀ path op, factory.defaultFor? path = some op → op ∈ factory.offerFor path

variable {factory inner : OperatorFactory} {path : Path} {op : Operator}
  {operators others : List Operator}

/-- An operator at hand with an offered key is an offered operator. -/
theorem Lawful.offers_iff (h : factory.Lawful) :
    factory.Offers path op ↔ op ∈ factory.offerFor path := by
  constructor
  · rintro ⟨⟨b, rfl⟩, hcontains⟩
    obtain ⟨other, hother, hsame⟩ := List.contains_iff_exists_mem_beq.mp hcontains
    obtain ⟨c, rfl⟩ := h.atHand path other hother
    rw [BuiltIn.eq_of_key_eq (Operator.beq_iff.mp hsame)]
    exact hother
  · intro hop
    have hself : (op == op) = true := Operator.beq_iff.mpr rfl
    exact ⟨h.atHand path op hop, List.contains_iff_exists_mem_beq.mpr ⟨op, hop, hself⟩⟩

/-- The operator of a new condition is offered. -/
theorem Lawful.offers_default (h : factory.Lawful) (hop : factory.defaultFor? path = some op) :
    factory.Offers path op :=
  h.offers_iff.mpr (h.default path op hop)

theorem atHand_map (bs : List BuiltIn) : AtHand (bs.map BuiltIn.operator) :=
  List.forall_mem_map.mpr fun b _ => ⟨b, rfl⟩

theorem AtHand.append (h : AtHand operators) (hothers : AtHand others) :
    AtHand (operators ++ others) :=
  List.forall_mem_append.mpr ⟨h, hothers⟩

theorem AtHand.addNew (h : AtHand operators) (b : BuiltIn) :
    AtHand (addNew operators b.operator) := by
  rw [OperatorFactory.addNew]
  split
  · exact h
  · exact h.append (atHand_map [b])

theorem atHand_standard (k : Kind) : AtHand (standard.offer k) := by
  have hwhen (c : Bool) (bs : List BuiltIn) :
      AtHand (if c then bs.map BuiltIn.operator else []) := by
    cases c with
    | false => exact List.forall_mem_nil _
    | true => exact atHand_map bs
  exact ((atHand_map [.comparison .equal, .comparison .notEqual]).append
    (hwhen _ [.comparison .lessThan, .comparison .lessThanOrEqual, .comparison .greaterThan,
      .comparison .greaterThanOrEqual])).append
    (hwhen _ [.membership false, .membership true])

/-- A factory that goes by the kind of a property alone is lawful if it offers operators at hand. -/
theorem lawful_of_offer {offer : Kind → List Operator} (h : ∀ k, AtHand (offer k)) :
    Lawful { offer } where
  atHand path := h path.kind
  default _ _ hop := List.mem_of_head? hop

theorem lawful_standard : standard.Lawful := lawful_of_offer atHand_standard

theorem lawful_fixed (bs : List BuiltIn) : (fixed (bs.map BuiltIn.operator)).Lawful :=
  lawful_of_offer fun _ => atHand_map bs

theorem lawful_withPatterns (h : ∀ k, AtHand (inner.offer k)) : (withPatterns inner).Lawful := by
  refine lawful_of_offer fun k => ?_
  split
  · exact ((h k).addNew (.pattern false)).addNew (.pattern true)
  · exact h k

end OperatorFactory

end EntityQuery
