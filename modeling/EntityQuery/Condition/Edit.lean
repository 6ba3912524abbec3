import EntityQuery.Condition.Tree

/-!
# Edits as data

An `Edit` is one call on a tree: a change, a subscription or a request for an expression. A run is a
list of edits; it goes on after those that fail.

* `Edit`, `EditAnswer` — calls and their answers.
* `Edit.call` — the call of an edit.
* `Tree.perform` — the outcome of an edit.
* `Tree.after`, `Tree.run` — the tree after an edit, and after a list of them.
* `Tree.after_compile` — a request for an expression as an edit.
* `Tree.run_append` — a run goes on where an earlier one has ended.
-/

namespace EntityQuery

/-- A call on a tree. -/
inductive Edit where
  | add (block : NodeId) (c : Condition)
  | remove (id : NodeId)
  | createNew (block : NodeId) (path : Path) (operator? : Option Operator) (value? : Option Value)
  | createFromTemplate (block : NodeId)
  | group (block : NodeId) (candidates : List NodeId)
  | ungroup (block : NodeId) (candidates : List NodeId)
  | clear (block : NodeId)
  | setProperty (id : NodeId) (path : Path)
  | setOperator (id : NodeId) (operator : Operator)
  | setValue (id : NodeId) (value : Value)
  | setRaw (id : NodeId) (raw : String)
  | setLogical (id : NodeId) (logical : Logical)
  | subscribe (id : NodeId)
  | unsubscribe (id : NodeId) (listener : Nat)
  | compile (id : NodeId)

/-- The answer to a call that succeeds. A request for an expression also tells how many expressions
were built for it. -/
inductive EditAnswer where
  | done
  | created (id : NodeId)
  | removed (c : Condition)
  | grouped (id? : Option NodeId)
  | flag (b : Bool)
  | listener (n : Nat)
  | compiled (e? : Option Expr) (built : Nat)

namespace Edit

/-- The call of an edit. -/
def call : Edit → TreeM EditAnswer
  | .add block c => .created <$> TreeM.add block c
  | .remove id => .removed <$> TreeM.remove id
  | .createNew block path operator? value? =>
    .created <$> TreeM.createNew block path operator? value?
  | .createFromTemplate block => .created <$> TreeM.createFromTemplate block
  | .group block candidates => .grouped <$> TreeM.group block candidates
  | .ungroup block candidates => .flag <$> TreeM.ungroup block candidates
  | .clear block => (fun _ => .done) <$> TreeM.clear block
  | .setProperty id path => (fun _ => .done) <$> TreeM.setProperty id path
  | .setOperator id operator => (fun _ => .done) <$> TreeM.setOperator id operator
  | .setValue id value => (fun _ => .done) <$> TreeM.setValue id value
  | .setRaw id raw => .flag <$> TreeM.setRaw id raw
  | .setLogical id logical => (fun _ => .done) <$> TreeM.setLogical id logical
  | .subscribe id => .listener <$> TreeM.subscribe id
  | .unsubscribe id listener => .flag <$> TreeM.unsubscribe id listener
  | .compile id => fun t =>
    match t.compile id with
    | .error e => .error e t
    | .ok c => .ok (.compiled c.expr? c.built) c.result

end Edit

/-- The outcome of a call: its answer or failure, the tree after it and the events in the order in
which they are heard. -/
structure Outcome (α : Type) where
  answer : Except ConditionError α
  tree : Tree
  events : List Event

namespace Tree

/-- The outcome of a call. -/
def outcome {α : Type} (t : Tree) (call : TreeM α) : Outcome α :=
  match call t with
  | .ok answer after => ⟨.ok answer, after, after.heard.drop t.heard.length⟩
  | .error e after => ⟨.error e, after, after.heard.drop t.heard.length⟩

/-- The outcome of an edit. -/
def perform (t : Tree) (e : Edit) : Outcome EditAnswer := t.outcome e.call

/-- The tree after an edit. -/
def after (t : Tree) (e : Edit) : Tree := (t.perform e).tree

/-- The tree after a list of edits. -/
def run (t : Tree) (edits : List Edit) : Tree := edits.foldl after t

/-- A request for an expression is an edit that leaves the tree with all expressions remembered. -/
theorem after_compile {t : Tree} {id : NodeId} {c : Compiled Tree} (hc : t.compile id = .ok c) :
    t.after (.compile id) = c.result := by
  simp only [after, perform, outcome, Edit.call, hc]

/-- A run goes on where an earlier one has ended. -/
theorem run_append (t : Tree) (edits others : List Edit) :
    t.run (edits ++ others) = (t.run edits).run others := by
  simp [run, List.foldl_append]

end Tree

end EntityQuery
