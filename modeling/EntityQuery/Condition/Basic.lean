import EntityQuery.Operator.Basic
import EntityQuery.Path.Labels

/-!
# Conditions

A `Condition` is a tree of formulas over one record. A leaf compares a property with a value; a
block combines its children from left to right, each with its own logical operator. The logical
operator of a first child does not count, and neither does a child without any leaf.

* `Leaf`, `Condition` — the tree.
* `Condition.expr?` — the expression of a condition; a condition without leaves has none.
* `Condition.truth` — the truth of a condition on a record, without an expression.
* `Condition.text` — the condition in words.
-/

namespace EntityQuery

/-- A property, an operator and a value. -/
structure Leaf where
  path : Path
  operator : Operator
  value : Value

namespace Leaf

/-- The expression of a leaf. -/
def expr (c : Leaf) : Expr := c.operator.build (.property c.path) (.const c.value)

/-- A leaf in words. -/
def text (labels : Labels) (c : Leaf) : String :=
  labels.name c.path ++ " " ++ c.operator.name ++ " " ++ labels.value c.path c.value

/-- The leaf with a value that its operator fits to its property. -/
def fitted (c : Leaf) : Leaf :=
  { c with value := c.operator.defaultValue c.path.kind c.path.nullable c.value }

end Leaf

/-- A formula over one record. The logical operator says how it joins the formula before it. -/
inductive Condition where
  | leaf (logical : Logical) (content : Leaf)
  | block (logical : Logical) (children : List Condition)

namespace Condition

/-- How a condition joins the one before it. -/
def logical : Condition → Logical
  | .leaf logical _ | .block logical _ => logical

/-- Whether a condition is a block. -/
def isBlock : Condition → Bool
  | .leaf .. => false
  | .block .. => true

/-- The children of a block. -/
def children : Condition → List Condition
  | .leaf .. => []
  | .block _ children => children

mutual

/-- The number of leaves and blocks. -/
def nodeCount : Condition → Nat
  | .leaf .. => 1
  | .block _ children => 1 + nodeCounts children

/-- The number of leaves and blocks of conditions. -/
def nodeCounts : List Condition → Nat
  | [] => 0
  | c :: cs => nodeCount c + nodeCounts cs

end

/-! ### Meaning -/

/-- Join an expression to the ones before it. -/
def join (before? : Option Expr) (op : Logical) (e : Expr) : Expr :=
  match before? with
  | none => e
  | some before => .combine op before e

/-- Join what a condition compiles to, if anything, to the expression before it. -/
def joinNext (before? : Option Expr) (op : Logical) : Option Expr → Option Expr
  | none => before?
  | some e => some (join before? op e)

mutual

/-- The expression of a condition. -/
def expr? : Condition → Option Expr
  | .leaf _ content => some content.expr
  | .block _ children => exprs? none children

/-- The expression of conditions after others. -/
def exprs? (before? : Option Expr) : List Condition → Option Expr
  | [] => before?
  | c :: cs => exprs? (joinNext before? c.logical (expr? c)) cs

end

mutual

/-- Whether a condition has a leaf. -/
def hasLeaf : Condition → Bool
  | .leaf .. => true
  | .block _ children => anyHasLeaf children

/-- Whether one of the conditions has a leaf. -/
def anyHasLeaf : List Condition → Bool
  | [] => false
  | c :: cs => hasLeaf c || anyHasLeaf cs

end

/-- The truths of conditions from left to right: the first one alone, and each one after it by its
own logical operator. Of no conditions nothing is asked. -/
def combineAll : List (Logical × Bool) → Bool
  | [] => true
  | (_, first) :: others => others.foldl (fun before (op, b) => op.combine before b) first

mutual

/-- The truth of a condition on a record. -/
def truth (r : Record) : Condition → Bool
  | .leaf _ content => content.expr.test r
  | .block _ children => combineAll (truths r children)

/-- The logical operators and the truths of the conditions that have a leaf. -/
def truths (r : Record) : List Condition → List (Logical × Bool)
  | [] => []
  | c :: cs => if hasLeaf c then (c.logical, truth r c) :: truths r cs else truths r cs

end

/-! ### Words -/

/-- Join the text of a condition to the text before it. -/
def joinText (before : String) (op : Logical) (text : String) : String :=
  if before.isEmpty then text else before ++ " " ++ op.word ++ " " ++ text

/-- A text in parentheses if it needs them: a block with several children does. -/
def enclose (c : Condition) (text : String) : String :=
  if 1 < c.children.length then "(" ++ text ++ ")" else text

mutual

/-- A condition in words. A condition without leaves has the empty text. -/
def text (labels : Labels) : Condition → String
  | .leaf _ content => content.text labels
  | .block _ children => texts labels "" children

/-- Conditions in words, after others. -/
def texts (labels : Labels) (before : String) : List Condition → String
  | [] => before
  | c :: cs =>
    let words := text labels c
    if words.isEmpty then texts labels before cs
    else texts labels (joinText before c.logical (enclose c words)) cs

end

/-- Every condition counts itself. -/
theorem nodeCount_pos (c : Condition) : 0 < c.nodeCount := by
  cases c with
  | leaf => simp [nodeCount]
  | block =>
    simp only [nodeCount]
    omega

end Condition

end EntityQuery
