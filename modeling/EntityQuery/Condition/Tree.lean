import EntityQuery.Condition.Arena
import EntityQuery.Operator.Factory

/-!
# Condition trees

A `Tree` holds the conditions of a query in an arena, below a root block. Listeners hear of every
edit that changes something: those of the changed condition first, then those above it, up to the
root.

* `Tree.ofFactory` — the tree without conditions.
* `Tree.compile`, `Tree.describe`, `Tree.snapshot` — what a condition means.
* `TreeM` — calls that may change a tree and may fail.
* `TreeM.add`, `TreeM.remove`, `TreeM.createNew`, `TreeM.createFromTemplate` — conditions come and
  go.
* `TreeM.group`, `TreeM.ungroup`, `TreeM.clear` — blocks.
* `TreeM.setProperty`, `TreeM.setOperator`, `TreeM.setValue`, `TreeM.setRaw`, `TreeM.setLogical` —
  changes of one condition.
* `TreeM.subscribe`, `TreeM.unsubscribe` — listeners.
-/

namespace EntityQuery

/-- The conditions below a root block, the factory that offers their operators, and all that
listeners have heard so far. -/
structure Tree where
  arena : Arena
  root : NodeId
  factory : OperatorFactory
  nextListener : Nat := 0
  heard : List Event := []

namespace Tree

/-- The tree without conditions. -/
def ofFactory (factory : OperatorFactory) : Tree where
  arena := ⟨[⟨0, some { parent? := none, logical := .and, body := .block [] }⟩], []⟩
  root := ⟨0, 0⟩
  factory := factory

/-! ### Questions -/

/-- The number of levels that a walk may go through. -/
def levels (t : Tree) : Nat := t.arena.slots.length

/-- The entry of a name. -/
def entry (t : Tree) (id : NodeId) : Except ConditionError Entry :=
  match t.arena.get? id with
  | some e => .ok e
  | none => .error (.unknownCondition id)

/-- Whether a name is in use. -/
def contains (t : Tree) (id : NodeId) : Bool := (t.arena.get? id).isSome

/-- The number of conditions below the root. -/
def size (t : Tree) : Nat := t.arena.slots.length - t.arena.free.length - 1

/-- The block above a condition; the root has none. -/
def parent (t : Tree) (id : NodeId) : Except ConditionError (Option NodeId) :=
  (t.entry id).map (·.parent?)

/-- The names of the children of a block. -/
def children (t : Tree) (id : NodeId) : Except ConditionError (List NodeId) :=
  match t.entry id with
  | .error e => .error e
  | .ok e =>
    match e.body with
    | .leaf _ => .error (.notABlock id)
    | .block children => .ok children

/-- Whether there are no conditions. -/
def isEmpty (t : Tree) : Bool :=
  match t.children t.root with
  | .error _ => true
  | .ok children => children.isEmpty

/-- The content of a leaf. -/
def content (t : Tree) (id : NodeId) : Except ConditionError Leaf :=
  match t.entry id with
  | .error e => .error e
  | .ok e =>
    match e.body with
    | .leaf content => .ok content
    | .block _ => .error (.notASimpleCondition id)

/-- The first leaf of a condition. -/
def firstLeaf? (t : Tree) (id : NodeId) : Option NodeId := t.arena.firstLeafAt? t.levels id

/-- A condition as a detached one. -/
def snapshot (t : Tree) (id : NodeId) : Except ConditionError Condition :=
  t.arena.snapshotAt t.levels id

/-- A condition in words. -/
def describe (t : Tree) (id : NodeId) (labels : Labels) : Except ConditionError String :=
  t.arena.describeAt labels t.levels id

/-- The conditions as nested nodes. -/
def outline (t : Tree) : Node :=
  (t.arena.outlineAt t.levels t.root).getD (.block ⟨t.root, .and, none, []⟩ [])

/-- The expression of a condition, with the tree that remembers all expressions. -/
def compile (t : Tree) (id : NodeId) : Except ConditionError (Compiled Tree) :=
  (t.arena.compileAt t.levels id).map fun c => ⟨c.expr?, { t with arena := c.result }, c.built⟩

end Tree

/-! ### Edits -/

/-- A call that may change a tree and may fail. What it has changed before it fails stays changed. -/
abbrev TreeM := EStateM ConditionError Tree

namespace TreeM

/-- Ask a question. -/
def ask {α : Type} (question : Tree → Except ConditionError α) : TreeM α := fun t =>
  match question t with
  | .ok answer => .ok answer t
  | .error e => .error e t

/-- Change the arena. -/
def onArena {α : Type} (f : Arena → α × Arena) : TreeM α := fun t =>
  .ok (f t.arena).1 { t with arena := (f t.arena).2 }

/-- Change the entry of a name. -/
def modifyEntry (id : NodeId) (f : Entry → Entry) : TreeM Unit := do
  let _ ← ask (·.entry id)
  onArena fun a => ((), a.modify id f)

/-- Give a block other children. -/
def modifyChildren (id : NodeId) (f : List NodeId → List NodeId) : TreeM Unit := do
  let children ← ask (·.children id)
  onArena fun a => ((), a.modify id ({ · with body := .block (f children) }))

/-- Give a leaf another content. -/
def modifyContent (id : NodeId) (f : Leaf → Leaf) : TreeM Unit := do
  let content ← ask (·.content id)
  onArena fun a => ((), a.modify id ({ · with body := .leaf (f content) }))

/-- Put conditions below another block. -/
def reparent (ids : List NodeId) (parent : NodeId) : TreeM Unit :=
  ids.forM fun id => modifyEntry id ({ · with parent? := some parent })

/-- Take a condition out with all below it. -/
def extract (id : NodeId) : TreeM (Option Condition) :=
  onArena fun a => a.extractAt a.slots.length id

/-- The end of an edit: expressions from a condition upwards are forgotten, and listeners from that
condition upwards hear of the change. -/
def changed (start : NodeId) (notice : Notice) : TreeM Unit := fun t =>
  let (arena, events) := t.arena.touchAt notice t.levels (some start)
  .ok () { t with arena, heard := t.heard ++ events }

/-- Append a detached condition to a block. -/
def add (block : NodeId) (c : Condition) : TreeM NodeId := do
  let _ ← ask (·.children block)
  let id ← onArena (·.insert (some block) c)
  modifyChildren block (· ++ [id])
  changed id ⟨id, .added⟩
  return id

/-- Detach a condition. -/
def remove (id : NodeId) : TreeM Condition := do
  if id = (← get).root then throw .cannotRemoveRoot
  match (← ask (·.entry id)).parent? with
  | none => throw (.unknownCondition id)
  | some parent =>
    modifyChildren parent (·.filter (· != id))
    match ← extract id with
    | none => throw (.unknownCondition id)
    | some c =>
      changed parent ⟨id, .removed⟩
      return c

/-- Append a new leaf to a block. Without an operator it gets the one that the factory has for new
conditions, and without a value null; the operator fits the value to the property. -/
def createNew (block : NodeId) (path : Path) (operator? : Option Operator) (value? : Option Value) :
    TreeM NodeId := do
  let _ ← ask (·.children block)
  match operator?.or ((← get).factory.defaultFor? path) with
  | none => throw (.noOperator path.fullName)
  | some operator => add block (.leaf .and (Leaf.fitted ⟨path, operator, value?.getD .null⟩))

/-- Append a new leaf to a block, with the property and the operator of its first leaf. -/
def createFromTemplate (block : NodeId) : TreeM NodeId := do
  let _ ← ask (·.children block)
  match (← get).firstLeaf? block with
  | none => throw (.noTemplateCondition block)
  | some first =>
    let template ← ask (·.content first)
    createNew block template.path (some template.operator) none

/-- Move children of a block into a new block at its end, which joins like the first of them. Fewer
than two candidates among the children change nothing. -/
def group (block : NodeId) (candidates : List NodeId) : TreeM (Option NodeId) := do
  let children ← ask (·.children block)
  match children.filter (candidates.contains ·) with
  | first :: second :: others =>
    let matched := first :: second :: others
    let entry ← ask (·.entry first)
    let id ← onArena
      (·.alloc { parent? := some block, logical := entry.logical, body := .block matched })
    reparent matched id
    modifyChildren block fun siblings => siblings.filter (!matched.contains ·) ++ [id]
    changed id ⟨id, .grouped⟩
    return some id
  | _ => return none

/-- The names of a parent's children with some names in front of one of them, or at the end. -/
def insertBefore (block : NodeId) (names siblings : List NodeId) : List NodeId :=
  siblings.takeWhile (· != block) ++ names ++ siblings.dropWhile (· != block)

/-- Move children of a block in front of it, into its parent. A block that loses all its children is
removed. Without candidates among the children, and for the root, nothing changes. -/
def ungroup (block : NodeId) (candidates : List NodeId) : TreeM Bool := do
  let matched := (← ask (·.children block)).filter (candidates.contains ·)
  match (← ask (·.entry block)).parent? with
  | none => return false
  | some parent =>
    if matched.isEmpty then return false
    modifyChildren block (·.filter (!matched.contains ·))
    reparent matched parent
    modifyChildren parent (insertBefore block matched)
    if (← ask (·.children block)).isEmpty then
      modifyChildren parent (·.filter (· != block))
      let _ ← extract block
      changed parent ⟨block, .ungrouped⟩
    else
      changed block ⟨block, .ungrouped⟩
    return true

/-- Remove the children of a block. -/
def clear (block : NodeId) : TreeM Unit := do
  let children ← ask (·.children block)
  modifyChildren block fun _ => []
  children.forM fun child => do
    let _ ← extract child
  changed block ⟨block, .cleared⟩

/-- Give a leaf another property. The operator is kept if it is offered for the property; the value
is fitted to it. -/
def setProperty (id : NodeId) (path : Path) : TreeM Unit := do
  let offered := (← get).factory.offerFor path
  let content ← ask (·.content id)
  if !offered.contains content.operator then
    match offered.head? with
    | none => throw (.noOperator path.fullName)
    | some operator => modifyContent id ({ · with operator })
  modifyContent id fun content => Leaf.fitted { content with path }
  changed id ⟨id, .propertyChanged⟩

/-- Give a leaf another operator, which fits the value to the property. -/
def setOperator (id : NodeId) (operator : Operator) : TreeM Unit := do
  modifyContent id fun content => Leaf.fitted { content with operator }
  changed id ⟨id, .operatorChanged⟩

/-- Give a leaf another value. -/
def setValue (id : NodeId) (value : Value) : TreeM Unit := do
  modifyContent id ({ · with value })
  changed id ⟨id, .valueChanged⟩

/-- Give a leaf the value of raw input; input that denotes no value gives null. The answer says
whether it denotes one. -/
def setRaw (id : NodeId) (raw : String) : TreeM Bool := do
  let content ← ask (·.content id)
  let parsed? := content.operator.parseRaw? content.path.kind raw
  setValue id (parsed?.getD .null)
  return parsed?.isSome

/-- Give a condition another logical operator. -/
def setLogical (id : NodeId) (logical : Logical) : TreeM Unit := do
  modifyEntry id ({ · with logical })
  changed id ⟨id, .logicalOperatorChanged⟩

/-- Listen to the changes of a condition and of those below it. -/
def subscribe (id : NodeId) : TreeM Nat := do
  let listener := (← get).nextListener
  modifyEntry id fun e => { e with listeners := e.listeners ++ [listener] }
  modify fun t => { t with nextListener := listener + 1 }
  return listener

/-- Stop listening. The answer says whether the listener was there. -/
def unsubscribe (id : NodeId) (listener : Nat) : TreeM Bool := do
  match (← get).arena.get? id with
  | none => return false
  | some e =>
    let kept := e.listeners.filter (· != listener)
    onArena fun a => ((), a.modify id ({ · with listeners := kept }))
    return kept.length != e.listeners.length

end TreeM

end EntityQuery
