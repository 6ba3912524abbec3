import EntityQuery.Calendar.Date
import EntityQuery.Calendar.DateTime
import EntityQuery.Calendar.TimeOfDay
import EntityQuery.Catalogue.Basic
import EntityQuery.Catalogue.Options
import EntityQuery.Condition.Edit
import EntityQuery.Condition.Outline
import EntityQuery.Entity.Codec
import EntityQuery.Expr.Basic
import EntityQuery.Number.Decimal
import EntityQuery.Number.Scientific
import EntityQuery.Operator.Factory
import EntityQuery.Path.Filter
import EntityQuery.Path.Labels
import EntityQuery.Path.Walk
import EntityQuery.Projection
import EntityQuery.Proofs.Entity.Members
import EntityQuery.Proofs.Path.Iteration
import EntityQuery.Proofs.Path.Leading
import EntityQuery.Proofs.Projection.Agreement
import EntityQuery.Proofs.Query.Answers
import EntityQuery.Proofs.Tree.Meaning
import EntityQuery.Query.Change
import EntityQuery.Query.Plan
import EntityQuery.Settings.Reading
import EntityQuery.Value.Json
import EntityQuery.Value.Kind
import EntityQuery.Proofs.Query.Paging
import EntityQuery.Proofs.Tree.Generations
import EntityQuery.Proofs.Tree.Unknown
import EntityQuery.Proofs.Tree.Wording
import EntityQuery.Proofs.Tree.Inversion
import EntityQuery.Proofs.Tree.Inverses
import EntityQuery.Proofs.Tree.Refusals
import EntityQuery.Proofs.Tree.Audience
import EntityQuery.Proofs.Tree.Delivery
import EntityQuery.Proofs.Tree.Listening
import EntityQuery.Proofs.Tree.Uniform
import EntityQuery.Proofs.Tree.Returning
import EntityQuery.Proofs.Entity.Restoring
import EntityQuery.Proofs.Path.Resolution
import EntityQuery.Proofs.Query.Offered
import EntityQuery.Proofs.Number.Narrow
import EntityQuery.Proofs.Entity.Conforming
import EntityQuery.Proofs.Query.Transplanting
import EntityQuery.Proofs.Query.Answering
import EntityQuery.Proofs.Query.Failures
import EntityQuery.Proofs.Query.Limits
import EntityQuery.Proofs.Tree.Lawful
import EntityQuery.Proofs.Catalogue.Serving
import EntityQuery.Proofs.Expr.Like
import EntityQuery.Proofs.Expr.Comparison
import EntityQuery.Proofs.Value.Exact
import EntityQuery.Proofs.Operator.Fitting
import EntityQuery.Proofs.Operator.Membership
import EntityQuery.Proofs.Value.Coercion
import EntityQuery.Proofs.Value.Legible
import EntityQuery.Proofs.Operator.Listing
import EntityQuery.Proofs.Operator.Integers
import EntityQuery.Proofs.Projection.Requested
import EntityQuery.Proofs.Query.Selected
import EntityQuery.Proofs.Tree.Counting
import EntityQuery.Proofs.Tree.Reuse
import EntityQuery.Proofs.Operator.Patterns
import EntityQuery.Proofs.Value.History
