import CampusQuery.Main
import CampusQuery.Proofs.Except
import CampusQuery.Proofs.Query.Reference
import CampusQuery.Proofs.Pattern
import CampusQuery.Proofs.Query.Conditions
import CampusQuery.Proofs.Query.Checks
import CampusQuery.Proofs.Query.Reading
import CampusQuery.Proofs.Query.Acceptance
import CampusQuery.Proofs.Query.Meaning
import CampusQuery.Proofs.Catalog.Admission
import CampusQuery.Proofs.Catalog.History
import CampusQuery.Proofs.Distinct
import CampusQuery.Proofs.Execution.Answers
import CampusQuery.Proofs.Catalog.Contents
import CampusQuery.Proofs.Catalog.Log
import CampusQuery.Proofs.Execution.Outcome
import CampusQuery.Proofs.Query.Target
import CampusQuery.Proofs.Execution.Isolation
import CampusQuery.Proofs.Execution.Interleaving
import CampusQuery.Proofs.Execution.Partition
import CampusQuery.Proofs.Cell
import CampusQuery.Proofs.Execution.Aggregates
import CampusQuery.Proofs.Execution.Ordering
import CampusQuery.Proofs.Execution.Reordering
import CampusQuery.Proofs.Json.Numbers
import CampusQuery.Proofs.Json.Scanning
import CampusQuery.Proofs.Json.Results
import CampusQuery.Proofs.Json.Distinct
import CampusQuery.Proofs.Json.Rows
import CampusQuery.Proofs.Catalog.Files
import CampusQuery.Proofs.Query.WellFormed
import CampusQuery.Proofs.Binary64.Value
import CampusQuery.Proofs.Binary64.Rounding
import CampusQuery.Proofs.Execution.Identity
import CampusQuery.Proofs.Execution.Comparison
import CampusQuery.Proofs.Execution.StableSort
import CampusQuery.Proofs.Execution.Selection
import CampusQuery.Proofs.Decimal
import CampusQuery.Proofs.Execution.Sums
import CampusQuery.Proofs.Execution.Extrema
import CampusQuery.Proofs.Query.Agreement
import CampusQuery.Proofs.Decimal.Quotient
import CampusQuery.Proofs.Execution.Means
import CampusQuery.Proofs.Binary64.Arithmetic
import CampusQuery.Proofs.Binary64.Shortest
import CampusQuery.Proofs.Decimal.Conversion
import CampusQuery.Proofs.Execution.Range
import CampusQuery.Proofs.Rounding
import CampusQuery.Proofs.Binary64.Nearest
import CampusQuery.Proofs.Json.MemberOrder
import CampusQuery.Proofs.Query.MemberOrder
import CampusQuery.Proofs.Command.Loading
import CampusQuery.Proofs.Execution.ColumnChoice
import CampusQuery.Proofs.Execution.GroupFields
import CampusQuery.Proofs.Filter
import CampusQuery.Proofs.Execution.SortingPasses
import CampusQuery.Proofs.Query.ShortForms
import CampusQuery.Proofs.ResultRow
import CampusQuery.Proofs.Json.Objects
