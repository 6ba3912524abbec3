import EntityQuery.Path.Basic
import EntityQuery.Value.Text
import EntityQuery.Expr.Method

/-!
# Expressions

An `Expr` is a formula over one record. Every expression has a value; one that is no truth value
counts as false.

* `Comparison`, `Logical` — the binary operations.
* `Expr.eval`, `Expr.test` — the value of an expression, and its truth.
* `Expr.text` — an expression as text; the record is called `x`.
* `Expr.same` — equality of expressions.
* `Expr.predicateText` — an expression as a function of the record.
-/

namespace EntityQuery

/-- Comparisons of two values. -/
inductive Comparison where
  | equal
  | notEqual
  | lessThan
  | lessThanOrEqual
  | greaterThan
  | greaterThanOrEqual
  deriving DecidableEq, Repr

namespace Comparison

/-- The sign of a comparison. -/
def symbol : Comparison → String
  | .equal => "=="
  | .notEqual => "!="
  | .lessThan => "<"
  | .lessThanOrEqual => "<="
  | .greaterThan => ">"
  | .greaterThanOrEqual => ">="

/-- Whether a comparison holds of two values. Values that do not compare are neither less nor
greater. -/
def holds (c : Comparison) (a b : Value) : Bool :=
  match c with
  | .equal => a.looseEq b
  | .notEqual => !a.looseEq b
  | .lessThan => a.compare b == some .lt
  | .lessThanOrEqual => (a.compare b).any (· != .gt)
  | .greaterThan => a.compare b == some .gt
  | .greaterThanOrEqual => (a.compare b).any (· != .lt)

end Comparison

/-- How two truth values are combined. -/
inductive Logical where
  | and
  | or
  deriving DecidableEq, Repr, Inhabited

namespace Logical

/-- The sign of a combination. -/
def symbol : Logical → String
  | .and => "&&"
  | .or => "||"

/-- The combination in words. -/
def word : Logical → String
  | .and => "AND"
  | .or => "OR"

/-- The combination of two truth values. -/
def combine : Logical → Bool → Bool → Bool
  | .and, a, b => a && b
  | .or, a, b => a || b

end Logical

/-- A formula over one record. -/
inductive Expr where
  | property (p : Path)
  | const (v : Value)
  | compare (c : Comparison) (left right : Expr)
  | combine (op : Logical) (left right : Expr)
  | not (e : Expr)
  | call (m : Method) (args : List Expr)

namespace Expr

/-! ### Values -/

mutual

/-- The value of an expression on a record. A member that is missing is null. -/
def eval (r : Record) : Expr → Value
  | .property p => (r.getPath? p.fullName).getD .null
  | .const v => v
  | .compare c a b => .bool (c.holds (eval r a) (eval r b))
  | .combine op a b =>
    .bool (op.combine ((eval r a).asBool?.getD false) ((eval r b).asBool?.getD false))
  | .not e => .bool ((eval r e).asBool? == some false)
  | .call m args => m.invoke (evalAll r args)

/-- The values of expressions on a record. -/
def evalAll (r : Record) : List Expr → List Value
  | [] => []
  | e :: es => eval r e :: evalAll r es

end

/-- The truth of an expression on a record. -/
def test (e : Expr) (r : Record) : Bool := (e.eval r).asBool?.getD false

/-! ### Texts -/

mutual

/-- An expression as text. The first argument of a call stands before the method. -/
def text : Expr → String
  | .property p => "x." ++ p.fullName
  | .const v => v.display
  | .compare c a b => "(" ++ text a ++ " " ++ c.symbol ++ " " ++ text b ++ ")"
  | .combine op a b => "(" ++ text a ++ " " ++ op.symbol ++ " " ++ text b ++ ")"
  | .not e => "!" ++ text e
  | .call m [] => m.name ++ "()"
  | .call m (receiver :: args) =>
    text receiver ++ "." ++ m.name ++ "(" ++ ", ".intercalate (texts args) ++ ")"

/-- Expressions as texts. -/
def texts : List Expr → List String
  | [] => []
  | e :: es => text e :: texts es

end

/-- An expression as a function of the record. -/
def predicateText (e : Expr) : String := "x => " ++ e.text

/-! ### Equality -/

mutual

/-- Equality of expressions, part by part. -/
def same : Expr → Expr → Bool
  | .property p, .property q => p.same q
  | .const v, .const w => v.same w
  | .compare c a b, .compare d a' b' => c == d && (same a a' && same b b')
  | .combine op a b, .combine op' a' b' => op == op' && (same a a' && same b b')
  | .not e, .not f => same e f
  | .call m args, .call n args' => m.same n && sameAll args args'
  | _, _ => false

/-- Equality of rows of expressions. -/
def sameAll : List Expr → List Expr → Bool
  | [], [] => true
  | e :: es, f :: fs => same e f && sameAll es fs
  | _, _ => false

end

/-! ### Evaluation -/

/-- The values of expressions are taken one by one. -/
theorem evalAll_eq_map (r : Record) (es : List Expr) : evalAll r es = es.map (eval r) := by
  induction es with
  | nil => rfl
  | cons e es ih => rw [evalAll, ih, List.map_cons]

/-- A combination holds when the combination of the truths does. -/
@[simp] theorem test_combine (op : Logical) (a b : Expr) (r : Record) :
    (Expr.combine op a b).test r = op.combine (a.test r) (b.test r) := by
  simp [test, eval, Value.asBool?]

/-- A comparison holds of the values of its sides. -/
@[simp] theorem test_compare (c : Comparison) (a b : Expr) (r : Record) :
    (Expr.compare c a b).test r = c.holds (a.eval r) (b.eval r) := by
  simp [test, eval, Value.asBool?]

end Expr

end EntityQuery
