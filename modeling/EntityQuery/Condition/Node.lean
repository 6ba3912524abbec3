import EntityQuery.Condition.Basic
import EntityQuery.Condition.Slots

/-!
# Conditions with names

A `Node` is a condition in a tree: it has a name, it remembers its expression once it is compiled,
and it knows who listens to its changes.

* `Node.toList`, `Node.ids` — a node and the nodes below it, parents before children.
* `Node.find?`, `Node.firstLeaf?` — a node by its name, and the name of the first leaf.
* `Node.toCondition` — the node as a detached condition.
-/

namespace EntityQuery

/-- What leaves and blocks have in common. The cache is empty as long as nothing is compiled. -/
structure Head where
  id : NodeId
  logical : Logical
  cache : Option (Option Expr) := none
  listeners : List Nat := []

/-- The outcome of compiling: an expression, what was compiled with its expressions remembered, and
how many expressions were built. -/
structure Compiled (α : Type) where
  expr? : Option Expr
  result : α
  built : Nat

/-- A condition in a tree. -/
inductive Node where
  | leaf (head : Head) (content : Leaf)
  | block (head : Head) (children : List Node)

namespace Node

/-- The head of a node. -/
def head : Node → Head
  | .leaf head _ | .block head _ => head

/-- The name of a node. -/
def id (n : Node) : NodeId := n.head.id

/-- Whether a node is a block. -/
def isBlock : Node → Bool
  | .leaf .. => false
  | .block .. => true

/-- The children of a block. -/
def children : Node → List Node
  | .leaf .. => []
  | .block _ children => children

mutual

/-- A node and the nodes below it, parents before children. -/
def toList : Node → List Node
  | .leaf head content => [.leaf head content]
  | .block head children => .block head children :: allToList children

/-- Nodes and the nodes below them. -/
def allToList : List Node → List Node
  | [] => []
  | n :: ns => toList n ++ allToList ns

end

/-- The names of a node and of the nodes below it. -/
def ids (n : Node) : List NodeId := n.toList.map (·.id)

/-- The node of a name. -/
def find? (id : NodeId) (n : Node) : Option Node := n.toList.find? (·.id == id)

/-- The name of the first leaf. -/
def firstLeaf? (n : Node) : Option NodeId := (n.toList.find? (!·.isBlock)).map (·.id)

mutual

/-- The node as a detached condition. -/
def toCondition : Node → Condition
  | .leaf head content => .leaf head.logical content
  | .block head children => .block head.logical (allToCondition children)

/-- Nodes as detached conditions. -/
def allToCondition : List Node → List Condition
  | [] => []
  | n :: ns => toCondition n :: allToCondition ns

end

/-- A node comes first among itself and the nodes below it. -/
theorem head?_toList (n : Node) : n.toList.head? = some n := by
  cases n <;> simp [toList]

/-- A detached condition keeps its logical operator. -/
theorem logical_toCondition (n : Node) : n.toCondition.logical = n.head.logical := by
  cases n <;> simp [toCondition, Condition.logical, head]

end Node

end EntityQuery
