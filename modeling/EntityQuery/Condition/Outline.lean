import EntityQuery.Condition.Edit

/-!
# Outlines

An `Outline` is a condition tree as nested nodes. Its edits are described as changes of the nested
nodes, without links between them: every edit either fails and changes nothing, or gives the outline
after it together with the events that listeners hear.

* `Node.lineage`, `Node.update`, `Node.touch` — a node by its name, and the nodes above it.
* `Node.plant` — the node of a detached condition, with new names.
* `Node.compile` — the expression of a node, with all expressions remembered.
* `Outline.perform` — the outcome of an edit.
-/

namespace EntityQuery

/-- The head without a remembered expression. -/
def Head.uncached (h : Head) : Head := { h with cache := none }

namespace Node

/-- The node with another head. -/
def withHead (f : Head → Head) : Node → Node
  | .leaf head content => .leaf (f head) content
  | .block head children => .block (f head) children

/-- The block with other children. -/
def withChildren (f : List Node → List Node) : Node → Node
  | .leaf head content => .leaf head content
  | .block head children => .block head (f children)

/-- The leaf with another content. -/
def withContent (f : Leaf → Leaf) : Node → Node
  | .leaf head content => .leaf head (f content)
  | .block head children => .block head children

/-! ### Nodes by their names -/

mutual

/-- The heads from the node of a name upwards; none if there is no node of that name. -/
def lineage (id : NodeId) : Node → List Head
  | .leaf head _ => if head.id = id then [head] else []
  | .block head children =>
    if head.id = id then [head]
    else
      match lineageAmong id children with
      | [] => []
      | below => below ++ [head]

/-- The heads from the node of a name up to one of the given nodes. -/
def lineageAmong (id : NodeId) : List Node → List Head
  | [] => []
  | n :: ns =>
    match lineage id n with
    | [] => lineageAmong id ns
    | below => below

end

/-- The name of the block above the node of a name. -/
def parent? (id : NodeId) (n : Node) : Option NodeId := ((n.lineage id)[1]?).map (·.id)

mutual

/-- Change the node of a name. -/
def update (id : NodeId) (f : Node → Node) : Node → Node
  | .leaf head content =>
    if head.id = id then f (.leaf head content) else .leaf head content
  | .block head children =>
    if head.id = id then f (.block head children) else .block head (updateAll id f children)

/-- Change the node of a name below the given nodes. -/
def updateAll (id : NodeId) (f : Node → Node) : List Node → List Node
  | [] => []
  | n :: ns => update id f n :: updateAll id f ns

end

mutual

/-- Forget the expressions of the node of a name and of the nodes above it. -/
def touch (id : NodeId) : Node → Node
  | .leaf head content =>
    if head.id = id then .leaf head.uncached content else .leaf head content
  | .block head children =>
    if head.id = id then .block head.uncached children
    else if (allToList children).any (·.id == id) then .block head.uncached (touchAll id children)
    else .block head children

/-- Forget the expressions below the given nodes. -/
def touchAll (id : NodeId) : List Node → List Node
  | [] => []
  | n :: ns => touch id n :: touchAll id ns

end

mutual

/-- The node of a detached condition. A block is named before its children. -/
def plant (s : Slots) : Condition → Node × Slots
  | .leaf logical content =>
    let (id, s) := s.take
    (.leaf ⟨id, logical, none, []⟩ content, s)
  | .block logical children =>
    let (id, s) := s.take
    let (nodes, s) := plantAll s children
    (.block ⟨id, logical, none, []⟩ nodes, s)

/-- The nodes of detached conditions. -/
def plantAll (s : Slots) : List Condition → List Node × Slots
  | [] => ([], s)
  | c :: cs =>
    let (node, s) := plant s c
    let (nodes, s) := plantAll s cs
    (node :: nodes, s)

end

/-! ### Expressions -/

mutual

/-- Compile a node. Remembered expressions are used again. -/
def compile : Node → Compiled Node
  | .leaf head content =>
    match head.cache with
    | some e? => ⟨e?, .leaf head content, 0⟩
    | none =>
      let e? := some content.expr
      ⟨e?, .leaf { head with cache := some e? } content, 1⟩
  | .block head children =>
    match head.cache with
    | some e? => ⟨e?, .block head children, 0⟩
    | none =>
      let below := compileAll none children
      ⟨below.expr?, .block { head with cache := some below.expr? } below.result, below.built + 1⟩

/-- Compile nodes after others. -/
def compileAll (before? : Option Expr) : List Node → Compiled (List Node)
  | [] => ⟨before?, [], 0⟩
  | n :: ns =>
    let first := compile n
    let rest := compileAll (Condition.joinNext before? n.head.logical first.expr?) ns
    ⟨rest.expr?, first.result :: rest.result, first.built + rest.built⟩

end

end Node

/-- A condition tree as nested nodes. -/
structure Outline where
  root : Node
  slots : Slots
  factory : OperatorFactory
  nextListener : Nat := 0

namespace Outline

/-- The outcome of an edit: its answer, the outline after it and the events in the order in which
they are heard. -/
structure Outcome (α : Type) where
  answer : α
  outline : Outline
  events : List Event

/-- The outcome with another answer. -/
def Outcome.map {α β : Type} (f : α → β) (o : Outcome α) : Outcome β :=
  ⟨f o.answer, o.outline, o.events⟩

/-- The outline without conditions. -/
def ofFactory (factory : OperatorFactory) : Outline where
  root := .block ⟨⟨0, 0⟩, .and, none, []⟩ []
  slots := ⟨[0], []⟩
  factory := factory

/-! ### Questions -/

/-- The node of a name. -/
def node (o : Outline) (id : NodeId) : Except ConditionError Node :=
  match o.root.find? id with
  | some n => .ok n
  | none => .error (.unknownCondition id)

/-- The children of a block. -/
def children (o : Outline) (id : NodeId) : Except ConditionError (List Node) :=
  match o.node id with
  | .error e => .error e
  | .ok (.leaf ..) => .error (.notABlock id)
  | .ok (.block _ children) => .ok children

/-- The content of a leaf. -/
def content (o : Outline) (id : NodeId) : Except ConditionError Leaf :=
  match o.node id with
  | .error e => .error e
  | .ok (.leaf _ content) => .ok content
  | .ok (.block ..) => .error (.notASimpleCondition id)

/-- The expression of a condition, with the outline that remembers all expressions. -/
def compile (o : Outline) (id : NodeId) : Except ConditionError (Compiled Outline) :=
  (o.node id).map fun n =>
    ⟨n.compile.expr?, { o with root := o.root.update id fun _ => n.compile.result },
      n.compile.built⟩

/-! ### Edits -/

/-- Change the node of a name. -/
def modify (o : Outline) (id : NodeId) (f : Node → Node) : Outline :=
  { o with root := o.root.update id f }

/-- The end of an edit: expressions from a node upwards are forgotten, and listeners from that node
upwards hear of the change. -/
def changed {α : Type} (o : Outline) (answer : α) (start : NodeId) (notice : Notice) :
    Outcome α where
  answer := answer
  outline := { o with root := o.root.touch start }
  events := (o.root.lineage start).flatMap fun head => notice.events head.listeners

/-- Append a detached condition to a block. -/
def add (o : Outline) (block : NodeId) (c : Condition) : Except ConditionError (Outcome NodeId) :=
  (o.children block).map fun _ =>
    let (n, slots) := Node.plant o.slots c
    let o := { o with slots }.modify block (Node.withChildren (· ++ [n]))
    o.changed n.id n.id ⟨n.id, .added⟩

/-- Detach a condition. -/
def remove (o : Outline) (id : NodeId) : Except ConditionError (Outcome Condition) :=
  if id = o.root.id then .error .cannotRemoveRoot
  else
    match o.node id, o.root.parent? id with
    | .error e, _ => .error e
    | .ok _, none => .error (.unknownCondition id)
    | .ok n, some parent =>
      let o := { o with slots := o.slots.giveBackAll n.ids }
      let o := o.modify parent (Node.withChildren (·.filter (·.id != id)))
      .ok (o.changed n.toCondition parent ⟨id, .removed⟩)

/-- Append a new leaf to a block. -/
def createNew (o : Outline) (block : NodeId) (path : Path) (operator? : Option Operator)
    (value? : Option Value) : Except ConditionError (Outcome NodeId) :=
  match o.children block with
  | .error e => .error e
  | .ok _ =>
    match operator?.or (o.factory.defaultFor? path) with
    | none => .error (.noOperator path.fullName)
    | some operator =>
      o.add block (.leaf .and (Leaf.fitted ⟨path, operator, value?.getD .null⟩))

/-- Append a new leaf to a block, with the property and the operator of its first leaf. -/
def createFromTemplate (o : Outline) (block : NodeId) : Except ConditionError (Outcome NodeId) :=
  match o.children block with
  | .error e => .error e
  | .ok _ =>
    match (o.root.find? block).bind Node.firstLeaf? with
    | none => .error (.noTemplateCondition block)
    | some first =>
      match o.content first with
      | .error e => .error e
      | .ok template => o.createNew block template.path (some template.operator) none

/-- Move children of a block into a new block at its end. -/
def group (o : Outline) (block : NodeId) (candidates : List NodeId) :
    Except ConditionError (Outcome (Option NodeId)) :=
  match o.children block with
  | .error e => .error e
  | .ok children =>
    match children.filter (candidates.contains ·.id) with
    | first :: second :: others =>
      let (id, slots) := o.slots.take
      let group := Node.block ⟨id, first.head.logical, none, []⟩ (first :: second :: others)
      let regroup (siblings : List Node) : List Node :=
        siblings.filter (!candidates.contains ·.id) ++ [group]
      let o := { o with slots }.modify block (Node.withChildren regroup)
      .ok (o.changed (some id) id ⟨id, .grouped⟩)
    | _ => .ok ⟨none, o, []⟩

/-- The children of a parent after some children of one of its blocks have moved in front of that
block. A block without children is left out. -/
def liftedFrom (block : NodeId) (candidates : List NodeId) (siblings : List Node) : List Node :=
  siblings.flatMap fun sibling =>
    if sibling.id = block then
      let kept := sibling.children.filter (!candidates.contains ·.id)
      sibling.children.filter (candidates.contains ·.id) ++
        if kept.isEmpty then [] else [sibling.withChildren fun _ => kept]
    else [sibling]

/-- Move children of a block in front of it, into its parent. -/
def ungroup (o : Outline) (block : NodeId) (candidates : List NodeId) :
    Except ConditionError (Outcome Bool) :=
  match o.children block with
  | .error e => .error e
  | .ok children =>
    match o.root.parent? block with
    | none => .ok ⟨false, o, []⟩
    | some parent =>
      if children.all (!candidates.contains ·.id) then .ok ⟨false, o, []⟩
      else
        let o := o.modify parent (Node.withChildren (liftedFrom block candidates))
        if children.all (candidates.contains ·.id) then
          let o := { o with slots := o.slots.giveBack block }
          .ok (o.changed true parent ⟨block, .ungrouped⟩)
        else .ok (o.changed true block ⟨block, .ungrouped⟩)

/-- Remove the children of a block. -/
def clear (o : Outline) (block : NodeId) : Except ConditionError (Outcome Unit) :=
  (o.children block).map fun children =>
    let o := { o with slots := o.slots.giveBackAll (children.flatMap Node.ids) }
    (o.modify block (Node.withChildren fun _ => [])).changed () block ⟨block, .cleared⟩

/-- Give a leaf another content. -/
def setContent (o : Outline) (id : NodeId) (change : Change) (content : Leaf) : Outcome Unit :=
  (o.modify id (Node.withContent fun _ => content)).changed () id ⟨id, change⟩

/-- Give a leaf another property. -/
def setProperty (o : Outline) (id : NodeId) (path : Path) : Except ConditionError (Outcome Unit) :=
  match o.content id with
  | .error e => .error e
  | .ok content =>
    let offered := o.factory.offerFor path
    let operator? :=
      if offered.contains content.operator then some content.operator else offered.head?
    match operator? with
    | none => .error (.noOperator path.fullName)
    | some operator =>
      .ok (o.setContent id .propertyChanged (Leaf.fitted ⟨path, operator, content.value⟩))

/-- Give a leaf another operator. -/
def setOperator (o : Outline) (id : NodeId) (operator : Operator) :
    Except ConditionError (Outcome Unit) :=
  (o.content id).map fun content =>
    o.setContent id .operatorChanged (Leaf.fitted { content with operator })

/-- Give a leaf another value. -/
def setValue (o : Outline) (id : NodeId) (value : Value) : Except ConditionError (Outcome Unit) :=
  (o.content id).map fun content => o.setContent id .valueChanged { content with value }

/-- Give a leaf the value of raw input. -/
def setRaw (o : Outline) (id : NodeId) (raw : String) : Except ConditionError (Outcome Bool) :=
  match o.content id with
  | .error e => .error e
  | .ok content =>
    let parsed? := content.operator.parseRaw? content.path.kind raw
    (o.setValue id (parsed?.getD .null)).map (·.map fun _ => parsed?.isSome)

/-- Give a condition another logical operator. -/
def setLogical (o : Outline) (id : NodeId) (logical : Logical) :
    Except ConditionError (Outcome Unit) :=
  (o.node id).map fun _ =>
    (o.modify id (Node.withHead ({ · with logical }))).changed () id ⟨id, .logicalOperatorChanged⟩

/-- Listen to the changes of a condition and of those below it. -/
def subscribe (o : Outline) (id : NodeId) : Except ConditionError (Outcome Nat) :=
  (o.node id).map fun _ =>
    let listener := o.nextListener
    let o := o.modify id (Node.withHead fun h => { h with listeners := h.listeners ++ [listener] })
    ⟨listener, { o with nextListener := listener + 1 }, []⟩

/-- Stop listening. -/
def unsubscribe (o : Outline) (id : NodeId) (listener : Nat) : Outcome Bool :=
  let heard := (o.root.find? id).any (·.head.listeners.contains listener)
  let forget (h : Head) : Head := { h with listeners := h.listeners.filter (· != listener) }
  ⟨heard, o.modify id (Node.withHead forget), []⟩

/-- The outcome of an edit. -/
def perform (o : Outline) : Edit → Except ConditionError (Outcome EditAnswer)
  | .add block c => (o.add block c).map (·.map .created)
  | .remove id => (o.remove id).map (·.map .removed)
  | .createNew block path operator? value? =>
    (o.createNew block path operator? value?).map (·.map .created)
  | .createFromTemplate block => (o.createFromTemplate block).map (·.map .created)
  | .group block candidates => (o.group block candidates).map (·.map .grouped)
  | .ungroup block candidates => (o.ungroup block candidates).map (·.map .flag)
  | .clear block => (o.clear block).map (·.map fun _ => .done)
  | .setProperty id path => (o.setProperty id path).map (·.map fun _ => .done)
  | .setOperator id operator => (o.setOperator id operator).map (·.map fun _ => .done)
  | .setValue id value => (o.setValue id value).map (·.map fun _ => .done)
  | .setRaw id raw => (o.setRaw id raw).map (·.map .flag)
  | .setLogical id logical => (o.setLogical id logical).map (·.map fun _ => .done)
  | .subscribe id => (o.subscribe id).map (·.map .listener)
  | .unsubscribe id listener => .ok ((o.unsubscribe id listener).map .flag)
  | .compile id => (o.compile id).map fun c => ⟨.compiled c.expr? c.built, c.result, []⟩

/-- The outline after an edit. An edit that fails changes nothing. -/
def after (o : Outline) (e : Edit) : Outline :=
  match o.perform e with
  | .ok outcome => outcome.outline
  | .error _ => o

/-- The outline after a list of edits. -/
def run (o : Outline) (edits : List Edit) : Outline := edits.foldl after o

end Outline

end EntityQuery
