import EntityQuery.Expr.Basic
import EntityQuery.Value.Kind

/-!
# Operators

An `Operator` turns a property and a value into an expression. It also says which value a condition
holds after it is chosen, and how raw input is read. Operators are told apart by their keys alone.

* `Operator` — an operator with its key.
* `Operator.comparison`, `Operator.membership`, `Operator.pattern` — the operators at hand.
-/

namespace EntityQuery

/-- What an operator makes of its two sides. -/
inductive OperatorKind where
  | comparison (c : Comparison)
  | combination (op : Logical)
  | call
  deriving DecidableEq, Repr

/-- What tells an operator from others. -/
structure OperatorKey where
  kind : OperatorKind
  method? : Option String := none
  negated : Bool := false
  deriving DecidableEq, Repr

/-- An operator of conditions. It builds the expression of a property on the left and a value on the
right, and fits a value to a property when it is chosen. Unless it says otherwise, raw input is read
as a value of the property. -/
structure Operator where
  key : OperatorKey
  name : String
  build : Expr → Expr → Expr
  defaultValue : Kind → Bool → Value → Value
  parseRaw? : Kind → String → Option Value := fun k raw => k.parse? raw

namespace Operator

instance : BEq Operator := ⟨fun a b => a.key == b.key⟩

/-- An expression, negated or not. -/
def negateIf (negated : Bool) (e : Expr) : Expr := if negated then .not e else e

/-! ### Values -/

/-- A value fitted to a scalar property: itself, its conversion, or an untouched value. -/
def scalarDefault (k : Kind) (nullable : Bool) (current : Value) : Value :=
  if k.assignable nullable current then current
  else
    match k.coerce? current with
    | some v => v
    | none => if nullable then .null else k.zero

/-- An item of a list fitted to a scalar property: itself or its conversion. -/
def fitItem? (k : Kind) (nullable : Bool) (item : Value) : Option Value :=
  if k.assignable nullable item then some item else k.coerce? item

/-- A list fitted to a scalar property; a list with an item that does not fit becomes empty, and so
does a value that is no list. -/
def listDefault (k : Kind) (nullable : Bool) (current : Value) : Value :=
  .list (((current.asList?.getD []).mapM (fitItem? k nullable)).getD [])

/-! ### Raw input -/

/-- The value of one item of a raw list. -/
def parseItem? (k : Kind) (raw : String) : Option Value :=
  if k = .text then some (.text (String.ofList (trim raw.toList))) else k.parse? raw

/-- The values of a raw list: items between commas, or none at all. -/
def parseItems? (k : Kind) (raw : String) : Option (List Value) :=
  if (trim raw.toList).isEmpty then some []
  else (pieces ',' raw.toList).mapM fun piece => parseItem? k (String.ofList piece)

/-! ### The operators at hand -/

/-- A comparison of the property with the value. -/
def comparison (c : Comparison) : Operator where
  key := { kind := .comparison c }
  name := c.symbol
  build := .compare c
  defaultValue := scalarDefault

/-- Whether a list holds the property, or does not. -/
def membership (negated : Bool) : Operator where
  key := ⟨.call, some Method.contains.name, negated⟩
  name := if negated then "not in" else "in"
  build left right := negateIf negated (.call .contains [right, left])
  defaultValue := listDefault
  parseRaw? k raw := (parseItems? k raw).map .list

/-- Whether the property matches a pattern, or does not. -/
def pattern (negated : Bool) : Operator where
  key := ⟨.call, some Method.like.name, negated⟩
  name := if negated then "not like" else "like"
  build left right := negateIf negated (.call .like [left, right])
  defaultValue := scalarDefault

/-- Operators agree when their keys do. -/
theorem beq_iff {a b : Operator} : (a == b) = true ↔ a.key = b.key := by
  rw [show (a == b) = (a.key == b.key) from rfl, beq_iff_eq]

/-- A value that fits is left alone. -/
theorem scalarDefault_of_assignable {k : Kind} {nullable : Bool} {v : Value}
    (h : k.assignable nullable v = true) : scalarDefault k nullable v = v := by
  simp [scalarDefault, h]

end Operator

end EntityQuery
