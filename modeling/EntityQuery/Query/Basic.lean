import EntityQuery.Condition.Edit
import EntityQuery.Path.Filter
import EntityQuery.Query.Page

/-!
# Queries

A `Query` asks a source for the entities of one type that meet its conditions, with the members that
are selected.

* `Query.compile`, `Query.projection?` — the filter and the projection of a query.
* `Query.setSelected`, `Query.selectOnly`, `Query.toggle` — the selected members.
* `Query.execute`, `Query.page` — the answer as records; `Query.execute` takes a number of matches
  first and then leaves out some of them, `Query.page` leaves out first.
* `Query.executeAs`, `Query.pageAs` — the answer as entities of a view.
* `Query.transplant` — conditions and selection of another query.
-/

namespace EntityQuery

/-- A member that can be selected. -/
structure Selectable where
  path : Path
  selected : Bool := true
  deriving DecidableEq, Repr

/-- A query for the entities of one type. -/
structure Query (m : EntityModel) where
  entity : m.Ty
  source : Source
  selectables : List Selectable
  conditionPaths : List Path
  conditions : Tree
  labels : Labels
  defaultPageSize : Nat

/-- The outcome of running a query: an answer or a failure, the query with its expressions
remembered, and what the run counted. -/
structure Run (m : EntityModel) (α : Type) where
  answer : Except QueryError α
  query : Query m
  tallies : Tallies

/-- The outcome with another answer. -/
def Run.map {m : EntityModel} {α β : Type} (f : α → β) (r : Run m α) : Run m β :=
  ⟨r.answer.map f, r.query, r.tallies⟩

/-- The objects on the way to the given paths, each once, in the order of their first occurrence. -/
def navigations (names : List String) : List String :=
  names.foldl (fun seen name =>
    match (segments name).dropLast with
    | [] => seen
    | steps => if seen.contains (dotted steps) then seen else seen ++ [dotted steps]) []

namespace Query

variable {m : EntityModel}

/-- The name of the entity type. -/
def entityName (q : Query m) : String := m.nameOf q.entity

/-- The root block of the conditions. -/
def root (q : Query m) : NodeId := q.conditions.root

/-- The condition path of a dotted name. -/
def conditionPath? (q : Query m) (name : String) : Option Path :=
  q.conditionPaths.find? fun p => p.fullName == name

/-! ### Selection -/

/-- The selected paths. -/
def selected (q : Query m) : List Path := (q.selectables.filter (·.selected)).map (·.path)

/-- Whether a path of this name can be selected. -/
def isSelectable (q : Query m) (name : String) : Bool :=
  q.selectables.any fun s => s.path.fullName == name

/-- Change the first entry of a name. -/
def selectFirst (name : String) (b : Bool) : List Selectable → List Selectable
  | [] => []
  | s :: others =>
    if s.path.fullName = name then { s with selected := b } :: others
    else s :: selectFirst name b others

/-- Select a path, or no longer. -/
def setSelected (q : Query m) (name : String) (b : Bool) : Except QueryError (Query m) :=
  if q.isSelectable name then .ok { q with selectables := selectFirst name b q.selectables }
  else .error (.notSelectable name)

/-- Select the given paths and no others. -/
def selectOnly (q : Query m) (names : List String) : Except QueryError (Query m) :=
  match names.find? (!q.isSelectable ·) with
  | some name => .error (.notSelectable name)
  | none =>
    let choose (s : Selectable) : Selectable :=
      { s with selected := names.contains s.path.fullName }
    .ok { q with selectables := q.selectables.map choose }

/-- Select the paths of a name that are not selected, and no longer those that are. -/
def toggle (q : Query m) (name : String) : Query m :=
  let flip (s : Selectable) : Selectable :=
    if s.path.fullName = name then { s with selected := !s.selected } else s
  { q with selectables := q.selectables.map flip }

/-- The projection onto the selected paths. -/
def projection? (q : Query m) : Except PathError Projection :=
  Projection.ofPaths? m.schema q.entity q.selected

/-- The projection onto the members of a view. -/
def viewProjection? (q : Query m) (view : m.Ty) : Except PathError Projection :=
  Projection.ofView? m.schema q.entity m.schema view

/-- The objects on the way to the selected paths. -/
def includes (q : Query m) : List String := navigations (q.selected.map (·.fullName))

/-! ### Conditions -/

/-- The conditions in words. -/
def describe (q : Query m) : Except ConditionError String :=
  q.conditions.describe q.root q.labels

/-- The filter of the conditions, with the query that remembers all expressions. -/
def compile (q : Query m) : Except ConditionError (Compiled (Query m)) :=
  (q.conditions.compile q.root).map fun c =>
    ⟨c.expr?, { q with conditions := c.result }, c.built⟩

/-! ### Answers -/

/-- Ask the source for records, and count the query. -/
def fetch (q : Query m) (before : Tallies) (request : FetchRequest) : Run m (List Record) :=
  let outcome := q.source.fetch request
  ⟨outcome.mapError .source, q, before + .ofOutcome outcome⟩

/-- The records that meet the conditions, with the selected members: of the first `limit` ones, those
after the first `offset`. -/
def execute (q : Query m) (limit offset : Option Nat) : Run m (List Record) :=
  match q.compile with
  | .error e => ⟨.error (.condition e), q, {}⟩
  | .ok ⟨filter, q, compilations⟩ =>
    match q.projection? with
    | .error e => ⟨.error (.path e), q, { compilations }⟩
    | .ok projection =>
      q.fetch { compilations } ⟨filter, some projection, .bounded limit offset, q.includes⟩

/-- The answer as entities of the query's own type. -/
def executeEntities (q : Query m) (limit offset : Option Nat) : Run m (List Datum) :=
  (q.execute limit offset).map fun records => records.map (m.ofRecord q.entity)

/-- The answer as entities of a view. -/
def executeAs (q : Query m) (view : m.Ty) (limit offset : Option Nat) : Run m (List Datum) :=
  match q.viewProjection? view with
  | .error e => ⟨.error (.path e), q, {}⟩
  | .ok projection =>
    match q.compile with
    | .error e => ⟨.error (.condition e), q, {}⟩
    | .ok ⟨filter, q, compilations⟩ =>
      let request : FetchRequest :=
        ⟨filter, some projection, .bounded limit offset, navigations projection.leafPaths⟩
      (q.fetch { compilations } request).map fun records => records.map (m.ofRecord view)

/-- Count the matches and load a page of them. The count is a query of its own in the tallies; what
the page itself takes is not counted. -/
def paged {α : Type} (q : Query m) (projection? : Except PathError Projection)
    (includes : Projection → List String) (size page : Nat) (ofRecord : Record → α) :
    Run m (Page α) :=
  match projection? with
  | .error e => ⟨.error (.path e), q, {}⟩
  | .ok projection =>
    if size = 0 then ⟨.error .invalidPageSize, q, {}⟩
    else
      match q.compile with
      | .error e => ⟨.error (.condition e), q, {}⟩
      | .ok ⟨filter, q, compilations⟩ =>
        let count := q.source.count filter
        let tallies := { compilations } + .ofOutcome count
        let fetch (size offset : Nat) : Except SourceError (List α) :=
          (q.source.fetch
            ⟨filter, some projection, .page offset size, includes projection⟩).map
              (List.map ofRecord)
        match count with
        | .error e => ⟨.error (.source e), q, tallies⟩
        | .ok totalItems => ⟨Page.load fetch totalItems size page, q, tallies⟩

/-- A page of records. -/
def page (q : Query m) (size page : Nat) : Run m (Page Record) :=
  q.paged q.projection? (fun _ => q.includes) size page id

/-- A page of entities of the query's own type. -/
def pageEntities (q : Query m) (size page : Nat) : Run m (Page Datum) :=
  q.paged q.projection? (fun _ => q.includes) size page (m.ofRecord q.entity)

/-- The first page of entities in the default size. -/
def firstPage (q : Query m) : Run m (Page Datum) := q.pageEntities q.defaultPageSize 0

/-- A page of entities of a view. -/
def pageAs (q : Query m) (view : m.Ty) (size page : Nat) : Run m (Page Datum) :=
  q.paged (q.viewProjection? view) (fun p => navigations p.leafPaths) size page (m.ofRecord view)

/-! ### Transplanting -/

/-- The entries with the flags of other entries of the same names. -/
def takeFlags (ours theirs : List Selectable) : List Selectable :=
  ours.map fun s =>
    match theirs.find? fun t => t.path.same s.path with
    | some t => { s with selected := t.selected }
    | none => s

/-- Replace the conditions below the root by copies of those of another tree. -/
def copyConditions (other : Tree) : TreeM Unit := do
  let root := (← get).root
  TreeM.clear root
  let theirs ← TreeM.ask fun _ => other.children other.root
  theirs.forM fun child => do
    let c ← TreeM.ask fun _ => other.snapshot child
    let _ ← TreeM.add root c

/-- Take the conditions and the selection of another query of the same entity type. The conditions
of this one are replaced. -/
def transplant (q other : Query m) : Except QueryError (Query m × List Event) :=
  let selectables := takeFlags q.selectables other.selectables
  let outcome := q.conditions.outcome (copyConditions other.conditions)
  match outcome.answer with
  | .error e => .error (.condition e)
  | .ok () => .ok ({ q with selectables, conditions := outcome.tree }, outcome.events)

/-- Toggling twice changes nothing. -/
theorem toggle_toggle (q : Query m) (name : String) : (q.toggle name).toggle name = q := by
  have back : q.selectables.map (fun s : Selectable =>
      if s.path.fullName = name then s else s) = q.selectables := by simp
  simp only [toggle, List.map_map, Function.comp_def]
  congr 1
  rw [← back, List.map_map]
  refine List.map_congr_left fun s _ => ?_
  by_cases h : s.path.fullName = name <;> simp [h]

end Query

end EntityQuery
