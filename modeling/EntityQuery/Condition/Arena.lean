import EntityQuery.Condition.Event
import EntityQuery.Condition.Node

/-!
# Arenas

An `Arena` keeps conditions in slots. Each entry knows the block above it and, if it is a block, the
names of its children. A slot that is given back is used again, the last one given back first, but
its generation is counted up, so that an old name is not the name of the next entry.

* `Entry`, `Slot`, `Arena` — conditions in slots.
* `Arena.alloc`, `Arena.release` — an entry comes and goes.
* `Arena.insert`, `Arena.extractAt` — a detached condition comes, and a condition goes with all below
  it.
* `Arena.compileAt`, `Arena.snapshotAt`, `Arena.describeAt`, `Arena.firstLeafAt?` — walks downwards.
* `Arena.touchAt` — the walk upwards after a change.

A walk takes the number of levels it may go. No walk goes through more levels than there are slots.
-/

namespace EntityQuery

/-- What only leaves or only blocks have. -/
inductive Body where
  | leaf (content : Leaf)
  | block (children : List NodeId)

/-- A condition in a slot. The cache is empty as long as nothing is compiled. -/
structure Entry where
  parent? : Option NodeId
  logical : Logical
  body : Body
  cache : Option (Option Expr) := none
  listeners : List Nat := []

namespace Entry

/-- Whether an entry is a block. -/
def isBlock (e : Entry) : Bool :=
  match e.body with
  | .leaf _ => false
  | .block _ => true

/-- The names of the children of a block. -/
def children (e : Entry) : List NodeId :=
  match e.body with
  | .leaf _ => []
  | .block children => children

end Entry

/-- A slot; its generation counts how often it was given back. -/
structure Slot where
  generation : UInt32
  entry? : Option Entry

/-- Slots, and the numbers of the empty ones, the last one given back first. -/
structure Arena where
  slots : List Slot
  free : List Nat

namespace Arena

/-- The entry of a name. An old name has no entry. -/
def get? (a : Arena) (id : NodeId) : Option Entry :=
  (a.slots[id.index]?).bind fun s => if s.generation = id.generation then s.entry? else none

/-- Change the entry of a name. -/
def modify (a : Arena) (id : NodeId) (f : Entry → Entry) : Arena :=
  { a with
    slots := a.slots.modify id.index fun s =>
      if s.generation = id.generation then { s with entry? := s.entry?.map f } else s }

/-- Put an entry into an empty slot, or into a new one. -/
def alloc (a : Arena) (e : Entry) : NodeId × Arena :=
  match a.free with
  | index :: free =>
    (⟨index, (a.slots[index]?).elim 0 (·.generation)⟩,
      ⟨a.slots.modify index fun s => { s with entry? := some e }, free⟩)
  | [] => (⟨a.slots.length, 0⟩, { a with slots := a.slots ++ [⟨0, some e⟩] })

/-- Take the entry of a name out of its slot, which is given back. -/
def release (a : Arena) (id : NodeId) : Option (Entry × Arena) :=
  (a.get? id).map fun e =>
    (e, ⟨a.slots.modify id.index fun s => ⟨s.generation + 1, none⟩, id.index :: a.free⟩)

/-! ### Detached conditions -/

mutual

/-- Put a detached condition below a block. A block is put before its children. -/
def insert (a : Arena) (parent? : Option NodeId) : Condition → NodeId × Arena
  | .leaf logical content => a.alloc { parent?, logical, body := .leaf content }
  | .block logical children =>
    let (id, a) := a.alloc { parent?, logical, body := .block [] }
    let (ids, a) := a.insertAll (some id) children
    (id, a.modify id fun e => { e with body := .block ids })

/-- Put detached conditions below a block. -/
def insertAll (a : Arena) (parent? : Option NodeId) : List Condition → List NodeId × Arena
  | [] => ([], a)
  | c :: cs =>
    let (id, a) := a.insert parent? c
    let (ids, a) := a.insertAll parent? cs
    (id :: ids, a)

end

/-- Take conditions out one after the other; names without an entry are passed over. -/
def extractAll (extract : Arena → NodeId → Option Condition × Arena) (a : Arena) :
    List NodeId → List Condition × Arena
  | [] => ([], a)
  | id :: ids =>
    let (c?, a) := extract a id
    let (cs, a) := extractAll extract a ids
    (c?.toList ++ cs, a)

/-- Take a condition out with all below it. -/
def extractAt : Nat → Arena → NodeId → Option Condition × Arena
  | 0, a, _ => (none, a)
  | levels + 1, a, id =>
    match a.release id with
    | none => (none, a)
    | some (e, a) =>
      match e.body with
      | .leaf content => (some (.leaf e.logical content), a)
      | .block children =>
        let (cs, a) := extractAll (extractAt levels) a children
        (some (.block e.logical cs), a)

/-! ### Walks downwards -/

/-- A copy of a condition with all below it. -/
def snapshotAt : Nat → Arena → NodeId → Except ConditionError Condition
  | 0, _, id => .error (.unknownCondition id)
  | levels + 1, a, id =>
    match a.get? id with
    | none => .error (.unknownCondition id)
    | some e =>
      match e.body with
      | .leaf content => .ok (.leaf e.logical content)
      | .block children => (children.mapM (snapshotAt levels a)).map (.block e.logical)

/-- A condition with all below it, as nested nodes. -/
def outlineAt : Nat → Arena → NodeId → Option Node
  | 0, _, _ => none
  | levels + 1, a, id =>
    (a.get? id).bind fun e =>
      let head : Head := ⟨id, e.logical, e.cache, e.listeners⟩
      match e.body with
      | .leaf content => some (.leaf head content)
      | .block children => (children.mapM (outlineAt levels a)).map (.block head)

/-- The first leaf of a condition. -/
def firstLeafAt? : Nat → Arena → NodeId → Option NodeId
  | 0, _, _ => none
  | levels + 1, a, id =>
    (a.get? id).bind fun e =>
      match e.body with
      | .leaf _ => some id
      | .block children => children.findSome? (firstLeafAt? levels a)

/-- The text of a child after the text of those before it: in parentheses if the child has several
children, and nothing for an empty text. -/
def appendText (a : Arena) (id : NodeId) (before text : String) : Except ConditionError String :=
  if text.isEmpty then .ok before
  else
    match a.get? id with
    | none => .error (.unknownCondition id)
    | some e =>
      let text := if 1 < e.children.length then "(" ++ text ++ ")" else text
      .ok (Condition.joinText before e.logical text)

/-- The texts of children after the text of those before them. -/
def describeAll (a : Arena) (describe : NodeId → Except ConditionError String) (before : String) :
    List NodeId → Except ConditionError String
  | [] => .ok before
  | id :: ids =>
    match describe id with
    | .error e => .error e
    | .ok text =>
      match a.appendText id before text with
      | .error e => .error e
      | .ok before => a.describeAll describe before ids

/-- A condition in words. -/
def describeAt (labels : Labels) : Nat → Arena → NodeId → Except ConditionError String
  | 0, _, id => .error (.unknownCondition id)
  | levels + 1, a, id =>
    match a.get? id with
    | none => .error (.unknownCondition id)
    | some e =>
      match e.body with
      | .leaf content => .ok (content.text labels)
      | .block children => a.describeAll (describeAt labels levels a) "" children

/-- Remember the expression of a condition. -/
def remember (a : Arena) (id : NodeId) (e? : Option Expr) : Arena :=
  a.modify id fun e => { e with cache := some e? }

/-- Compile children one after the other and join their expressions. A child without an expression
is passed over, and so is one that cannot be compiled. -/
def compileAll (compile : Arena → NodeId → Except ConditionError (Compiled Arena)) (a : Arena)
    (before? : Option Expr) : List NodeId → Compiled Arena
  | [] => ⟨before?, a, 0⟩
  | id :: ids =>
    match compile a id with
    | .error _ => compileAll compile a before? ids
    | .ok child =>
      let logical := (child.result.get? id).elim .and (·.logical)
      let rest :=
        compileAll compile child.result (Condition.joinNext before? logical child.expr?) ids
      { rest with built := child.built + rest.built }

/-- Compile a condition. Remembered expressions are used again. -/
def compileAt : Nat → Arena → NodeId → Except ConditionError (Compiled Arena)
  | 0, _, id => .error (.unknownCondition id)
  | levels + 1, a, id =>
    match a.get? id with
    | none => .error (.unknownCondition id)
    | some e =>
      match e.cache with
      | some e? => .ok ⟨e?, a, 0⟩
      | none =>
        match e.body with
        | .leaf content => .ok ⟨some content.expr, a.remember id (some content.expr), 1⟩
        | .block children =>
          let below := compileAll (compileAt levels) a none children
          .ok ⟨below.expr?, below.result.remember id below.expr?, below.built + 1⟩

/-! ### The walk upwards -/

/-- Forget the expressions from a condition up to the root, and tell the listeners on the way. -/
def touchAt (notice : Notice) : Nat → Arena → Option NodeId → Arena × List Event
  | 0, a, _ | _, a, none => (a, [])
  | levels + 1, a, some id =>
    match a.get? id with
    | none => (a, [])
    | some e =>
      let (above, events) :=
        touchAt notice levels (a.modify id fun e => { e with cache := none }) e.parent?
      (above, notice.events e.listeners ++ events)

end Arena

end EntityQuery
