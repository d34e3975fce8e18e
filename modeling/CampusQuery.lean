import CampusQuery.Registry
import CampusQuery.Proofs.Outcome
import CampusQuery.Proofs.Entries
import CampusQuery.Proofs.Tree.WellFormed
import CampusQuery.Proofs.Tree.Equality
import CampusQuery.Proofs.Double.Canonical
import CampusQuery.Proofs.Double.Nearest
import CampusQuery.Proofs.Double.Reading
import CampusQuery.Proofs.Decimal.Range
import CampusQuery.Proofs.Double.Finite
import CampusQuery.Proofs.Attribute.Resolution
import CampusQuery.Proofs.Row.Object
import CampusQuery.Proofs.Row.Ingestion
import CampusQuery.Proofs.Pattern.Glob
import CampusQuery.Proofs.Filter.Meaning
import CampusQuery.Proofs.Filter.Typing
import CampusQuery.Proofs.Filter.Equality
import CampusQuery.Proofs.Filter.Boolean
import CampusQuery.Proofs.Transformation.Reading
import CampusQuery.Proofs.Grammar.Rules
import CampusQuery.Proofs.Grammar.Equality
import CampusQuery.Proofs.Grammar.Language
import CampusQuery.Proofs.Plan.Reading
import CampusQuery.Proofs.Plan.Structure
import CampusQuery.Proofs.Plan.Typing
import CampusQuery.Proofs.Plan.Surplus
import CampusQuery.Proofs.Plan.Soundness
import CampusQuery.Proofs.Plan.Equality
import CampusQuery.Proofs.Order.Preorder
import CampusQuery.Proofs.Order.Stable
import CampusQuery.Proofs.Record.Projection
import CampusQuery.Proofs.Record.Summary
import CampusQuery.Proofs.Reduction.Values
import CampusQuery.Proofs.Reduction.Finite
import CampusQuery.Proofs.Grouping.Key
import CampusQuery.Proofs.Answer.Arrangement
import CampusQuery.Proofs.Answer.Ungrouped
import CampusQuery.Proofs.Answer.Grouped
import CampusQuery.Proofs.Answer.Isolation
import CampusQuery.Proofs.Answer.Equality
import CampusQuery.Proofs.Answer.Outcomes
import CampusQuery.Proofs.Answer.Boolean
import CampusQuery.Proofs.Registry.Store
import CampusQuery.Proofs.Registry.Run
import CampusQuery.Proofs.Answer.Shape
import CampusQuery.Proofs.Answer.Selection
import CampusQuery.Proofs.Answer.Finite
import CampusQuery.Proofs.Tree.Part
import CampusQuery.Proofs.Answer.Shorthand
import CampusQuery.Proofs.Plan.Columns
import CampusQuery.Proofs.Answer.Columns
import CampusQuery.Proofs.Answer.Applications
import CampusQuery.Proofs.Decimal.Sum
import CampusQuery.Proofs.Decimal.Cents
import CampusQuery.Proofs.Reduction.Average
import CampusQuery.Proofs.Grouping.Partition
import CampusQuery.Proofs.Order.Places
import CampusQuery.Proofs.Double.Extremum
import CampusQuery.Proofs.Decimal.Whole
import CampusQuery.Proofs.Decimal.Scale
import CampusQuery.Proofs.Reduction.Between
import CampusQuery.Proofs.Reduction.Sum
import CampusQuery.Proofs.Cell.Equality
import CampusQuery.Proofs.Reduction.Count
import CampusQuery.Proofs.Reduction.Extremum
import CampusQuery.Proofs.Row.RoundTrip
import CampusQuery.Proofs.Entries.History
import CampusQuery.Proofs.Tree.Equivalence
import CampusQuery.Proofs.Tree.Text
import CampusQuery.Proofs.Order.Total
import CampusQuery.Proofs.Double.Spacing
import CampusQuery.Proofs.Decimal.Nearby
