import EntityQuery.Query.Basic
import EntityQuery.Settings.Basic

/-!
# Plans of queries

A `Plan` says how a query is built: where its entities come from, which paths and operators it
offers, how it names them and how large its pages are.

* `Plan.withSettings` — a plan that follows settings.
* `PlanStep`, `Plan.ofSteps` — a plan that is made step by step.
* `Plan.build` — the query of a plan.
-/

namespace EntityQuery

/-- How a query is built. Only a source has to be given. -/
structure Plan where
  source? : Option Source := none
  factory : OperatorFactory := .standard
  selectFilter : PathFilter := {}
  conditionFilter : PathFilter := {}
  labels : Labels := .literal
  defaultPageSize : Nat := 20
  patternOperators : Bool := false

/-- A step of planning. Each one replaces what was planned before, but settings leave the depth
limits of filters alone. -/
inductive PlanStep where
  | source (s : Source)
  | factory (f : OperatorFactory)
  | selectFilter (f : PathFilter)
  | conditionFilter (f : PathFilter)
  | labels (l : Labels)
  | pageSize (n : Nat)
  | settings (s : Settings)

namespace Plan

/-- Follow settings. Their depth limit is for filters without a limit of their own; the other
settings replace what was planned before. -/
def withSettings (p : Plan) (s : Settings) : Plan :=
  { p with
    selectFilter := p.selectFilter.orDepth s.maxDepth
    conditionFilter := p.conditionFilter.orDepth s.maxDepth
    patternOperators := s.patternOperators
    defaultPageSize := s.defaultPageSize }

/-- A plan after a step. -/
def step (p : Plan) : PlanStep → Plan
  | .source s => { p with source? := some s }
  | .factory f => { p with factory := f }
  | .selectFilter f => { p with selectFilter := f }
  | .conditionFilter f => { p with conditionFilter := f }
  | .labels l => { p with labels := l }
  | .pageSize n => { p with defaultPageSize := n }
  | .settings s => p.withSettings s

/-- The plan of a list of steps. -/
def ofSteps (steps : List PlanStep) : Plan := steps.foldl step {}

/-- The factory of a query: patterns are added to the planned one if they are wanted. -/
def operatorFactory (p : Plan) : OperatorFactory :=
  if p.patternOperators then p.factory.withPatterns else p.factory

/-- The paths that a filter offers below an entity type. -/
def offered (m : EntityModel) (e : m.Ty) (filter : PathFilter) : List Path :=
  (m.schema.paths e filter.maxDepth).filter filter.allows

/-- The query of a plan for an entity type. At first every path is selected. -/
def build (m : EntityModel) (e : m.Ty) (p : Plan) : Except QueryError (Query m) :=
  match p.source? with
  | none => .error (.missingSource (m.nameOf e))
  | some source =>
    if p.defaultPageSize = 0 then .error .invalidPageSize
    else
      .ok {
        entity := e
        source := source
        selectables := (offered m e p.selectFilter).map (⟨·, true⟩)
        conditionPaths := offered m e p.conditionFilter
        conditions := .ofFactory p.operatorFactory
        labels := p.labels
        defaultPageSize := p.defaultPageSize }

end Plan

end EntityQuery
