import FilterQuery.Config.Encoding
import FilterQuery.Filter.Encoding
import FilterQuery.Filter.Parser
import FilterQuery.Hints.Encoding
import FilterQuery.Hints.Parser
import FilterQuery.Search.Query
import FilterQuery.Relational.Query
import FilterQuery.Sql.Layout
import FilterQuery.Proofs.Meaning
import FilterQuery.Proofs.Text.Quoted
import FilterQuery.Proofs.Text.Numeral
import FilterQuery.Proofs.Json.Number
import FilterQuery.Proofs.Search.Clause
import FilterQuery.Proofs.Search.BoolQuery
import FilterQuery.Proofs.Search.Routing
import FilterQuery.Proofs.Sql.Meaning
import FilterQuery.Proofs.Sql.Select
import FilterQuery.Proofs.Sql.Frame
import FilterQuery.Proofs.Sql.Rendering
import FilterQuery.Proofs.Sql.Placeholders
import FilterQuery.Proofs.Sql.Statement
import FilterQuery.Proofs.Filter.Image
import FilterQuery.Proofs.Relational.Meaning
import FilterQuery.Proofs.Relational.Reading
import FilterQuery.Proofs.Relational.Grammar
import FilterQuery.Proofs.Relational.Parameters
import FilterQuery.Proofs.Search.Wildcard
import FilterQuery.Proofs.Filter.Faults
import FilterQuery.Proofs.Distinction
import FilterQuery.Proofs.Config.Reachable
import FilterQuery.Proofs.Relational.Sequence
import FilterQuery.Proofs.Request
import FilterQuery.Proofs.Filter.Reports
import FilterQuery.Proofs.Reports
import FilterQuery.Proofs.Filter.FirstEntries
import FilterQuery.Proofs.Filter.Comparisons
import FilterQuery.Proofs.Emission
import FilterQuery.Proofs.Sql.EmptyGroups
import FilterQuery.Proofs.Text.Decimal
import FilterQuery.Proofs.Hints.Counts
import FilterQuery.Proofs.Hints.Reading
import FilterQuery.Proofs.Json.Rational
import FilterQuery.Proofs.Hints.Queries
import FilterQuery.Proofs.Json.Reading
import FilterQuery.Proofs.RoundTrip
import FilterQuery.Proofs.Search.Pushes
import FilterQuery.Proofs.Sql.Columns
import FilterQuery.Proofs.Json.Text
import FilterQuery.Proofs.Config.Saving
import FilterQuery.Proofs.Filter.Equality
import FilterQuery.Proofs.Search.Equality
import FilterQuery.Proofs.Sql.Equality
import FilterQuery.Proofs.Equality
