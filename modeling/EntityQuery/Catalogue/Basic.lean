import EntityQuery.Catalogue.Options
import EntityQuery.Query.Plan

/-!
# Catalogues

A `Catalogue` knows where the entities of each registered type come from, and builds queries for
them. The provider of a type is asked for a source at every build.

* `Catalogue.ofSettings` — the empty catalogue that follows settings.
* `Catalogue.register` — register an entity type; a type that is registered again keeps its place.
* `CatalogueStep`, `Catalogue.step` — the steps in which a catalogue is set up.
* `Catalogue.build`, `Catalogue.buildFor` — a query for a type, or for the first type of a name.
-/

namespace EntityQuery

/-- A registered entity type. The provider is given the number of its earlier calls. -/
structure Registration (m : EntityModel) where
  entity : m.Ty
  provider : Nat → Source
  calls : Nat := 0

/-- The registered entity types, and what all queries have in common. -/
structure Catalogue (m : EntityModel) where
  registry : List (Registration m) := []
  options : CatalogueOptions := {}
  factory : OperatorFactory := .standard
  labels : Labels := .literal
  defaultPageSize : Nat := 20

/-- A step in setting up a catalogue. -/
inductive CatalogueStep (m : EntityModel) where
  | options (o : CatalogueOptions)
  | select (f : PathFilter)
  | conditions (f : PathFilter)
  | factory (f : OperatorFactory)
  | labels (l : Labels)
  | register (entity : m.Ty) (provider : Nat → Source)

namespace Catalogue

variable {m : EntityModel}

/-- The empty catalogue that follows settings. -/
def ofSettings (s : Settings) : Catalogue m where
  options := ⟨{ maxDepth := s.maxDepth }, { maxDepth := s.maxDepth }⟩
  factory := if s.patternOperators then OperatorFactory.standard.withPatterns else .standard
  defaultPageSize := s.defaultPageSize

/-- Replace the registration of a type, or append a new one. -/
def place (r : Registration m) : List (Registration m) → List (Registration m)
  | [] => [r]
  | old :: others => if old.entity = r.entity then r :: others else old :: place r others

/-- Register an entity type. -/
def register (c : Catalogue m) (entity : m.Ty) (provider : Nat → Source) : Catalogue m :=
  { c with registry := place ⟨entity, provider, 0⟩ c.registry }

/-- A catalogue after a step. -/
def step (c : Catalogue m) : CatalogueStep m → Catalogue m
  | .options o => { c with options := o }
  | .select f => { c with options := { c.options with select := f } }
  | .conditions f => { c with options := { c.options with conditions := f } }
  | .factory f => { c with factory := f }
  | .labels l => { c with labels := l }
  | .register entity provider => c.register entity provider

/-- The registered types. -/
def entities (c : Catalogue m) : List m.Ty := c.registry.map (·.entity)

/-- Whether a type of this name is registered. -/
def isRegistered (c : Catalogue m) (name : String) : Bool :=
  c.registry.any fun r => m.nameOf r.entity == name

/-- The plan of the queries with a source. -/
def plan (c : Catalogue m) (source : Source) : Plan where
  source? := some source
  factory := c.factory
  selectFilter := c.options.select
  conditionFilter := c.options.conditions
  labels := c.labels
  defaultPageSize := c.defaultPageSize

/-- The query of a registration, and the catalogue after its provider was called. -/
def buildFrom (c : Catalogue m) (r : Registration m) :
    Except QueryError (Query m) × Catalogue m :=
  ((c.plan (r.provider r.calls)).build m r.entity,
    { c with registry := place { r with calls := r.calls + 1 } c.registry })

/-- A query for an entity type. -/
def build (c : Catalogue m) (entity : m.Ty) : Except QueryError (Query m) × Catalogue m :=
  match c.registry.find? fun r => r.entity == entity with
  | none => (.error (.unknownEntity (m.nameOf entity)), c)
  | some r => c.buildFrom r

/-- A query for the first entity type of a name. -/
def buildFor (c : Catalogue m) (name : String) : Except QueryError (Query m) × Catalogue m :=
  match c.registry.find? fun r => m.nameOf r.entity == name with
  | none => (.error (.unknownEntity name), c)
  | some r => c.build r.entity

/-- A registered type is in the registry once more often than before, or keeps its place. -/
theorem entities_place (r : Registration m) (registry : List (Registration m)) :
    (place r registry).map (·.entity) =
      if (registry.map (·.entity)).contains r.entity then registry.map (·.entity)
      else registry.map (·.entity) ++ [r.entity] := by
  induction registry with
  | nil => simp [place]
  | cons old others ih =>
    by_cases h : old.entity = r.entity
    · simp [place, h]
    · by_cases hm : r.entity ∈ others.map (·.entity)
      · simp_all [place]
      · simp_all [place, Ne.symm h]

end Catalogue

end EntityQuery
