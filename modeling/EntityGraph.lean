import EntityGraph.CommandLine.Run
import EntityGraph.Filter.Reader
import EntityGraph.Json.Printer
import EntityGraph.Main
import EntityGraph.Pattern.Construction
import EntityGraph.Read.Compile
import EntityGraph.Schema.Definition
import EntityGraph.Proofs.Algebra.Group
import EntityGraph.Proofs.Algebra.Clause
import EntityGraph.Proofs.Naming.Variable
import EntityGraph.Proofs.Pattern.Chart
import EntityGraph.Proofs.Pattern.Soundness
import EntityGraph.Proofs.Pattern.Reach
import EntityGraph.Proofs.Pattern.Ways
import EntityGraph.Proofs.Schema.Accepted
import EntityGraph.Proofs.Naming.Scopes
import EntityGraph.Proofs.Naming.Survey
import EntityGraph.Proofs.Naming.Steps
import EntityGraph.Proofs.Placement.Step
import EntityGraph.Proofs.Placement.Mentions
import EntityGraph.Proofs.Placement.Suits
import EntityGraph.Proofs.Placement.Asks
import EntityGraph.Proofs.Expand.Shows
import EntityGraph.Proofs.Results.Collection
import EntityGraph.Proofs.Results.Resolved
import EntityGraph.Proofs.Results.Grouping
import EntityGraph.Proofs.Read.Conforms
import EntityGraph.Proofs.Read.Accounts
import EntityGraph.Proofs.Read.Reads
import EntityGraph.Proofs.Read.Rows
import EntityGraph.Proofs.Read.Unfiltered
import EntityGraph.Proofs.Pattern.Reading
import EntityGraph.Proofs.Pattern.Narrow
import EntityGraph.Proofs.Pattern.Full
import EntityGraph.Proofs.Filter.Run
import EntityGraph.Proofs.Filter.Walk
import EntityGraph.Proofs.Filter.Value
import EntityGraph.Proofs.Filter.Renders
import EntityGraph.Proofs.Filter.Paths
import EntityGraph.Proofs.Filter.Elements
import EntityGraph.Proofs.Filter.Meaning
import EntityGraph.Proofs.Read.Alike
import EntityGraph.Proofs.Filter.Selection
import EntityGraph.Proofs.Read.Condition
import EntityGraph.Proofs.Read.Filtered
import EntityGraph.Proofs.Results.Grouped
import EntityGraph.Proofs.Placement.Resolves
import EntityGraph.Proofs.Filter.WellFormed
import EntityGraph.Proofs.Expand.Fits
import EntityGraph.Proofs.Read.Requests
import EntityGraph.Proofs.Read.Decoded
import EntityGraph.Proofs.Pattern.Grammar
import EntityGraph.Proofs.Pattern.Written
import EntityGraph.Proofs.Pattern.Faithful
import EntityGraph.Proofs.Sparql.Tokens
import EntityGraph.Proofs.Filter.Strings
import EntityGraph.Proofs.Schema.Closed
import EntityGraph.Proofs.Placement.Worded
import EntityGraph.Proofs.Placement.Unquoted
import EntityGraph.Proofs.Filter.Worded
import EntityGraph.Proofs.Filter.Unquoted
import EntityGraph.Proofs.Read.Worded
import EntityGraph.Proofs.Read.Literals
import EntityGraph.Proofs.Read.Quantified
import EntityGraph.Proofs.Naming.Trees
import EntityGraph.Proofs.Naming.History
import EntityGraph.Proofs.Placement.Trees
import EntityGraph.Proofs.Pattern.Together
import EntityGraph.Proofs.Read.Unaffected
import EntityGraph.Proofs.Read.Identified
import EntityGraph.Proofs.Placement.Spans
import EntityGraph.Proofs.Sparql.Existentials
import EntityGraph.Proofs.Filter.Sight
import EntityGraph.Proofs.Filter.Isolated
import EntityGraph.Proofs.Read.Isolated
import EntityGraph.Proofs.Pattern.Supported
import EntityGraph.Proofs.Read.Supported
import EntityGraph.Proofs.Results.Facts
import EntityGraph.Proofs.Results.Unordered
import EntityGraph.Proofs.Placement.Sources
import EntityGraph.Proofs.Expand.Anchored
import EntityGraph.Proofs.Results.Forest
import EntityGraph.Proofs.Results.Chains
import EntityGraph.Proofs.Read.Flattened
import EntityGraph.Proofs.Filter.Renaming
import EntityGraph.Proofs.Placement.Alpha
import EntityGraph.Proofs.Filter.Parallel
import EntityGraph.Proofs.Read.Renamed
import EntityGraph.Proofs.Sparql.Prologue
import EntityGraph.Proofs.Read.Declared
import EntityGraph.Proofs.Pattern.Chains
import EntityGraph.Proofs.Placement.Known
import EntityGraph.Proofs.Filter.Tracks
import EntityGraph.Proofs.Filter.Placed
import EntityGraph.Proofs.Filter.Variables
import EntityGraph.Proofs.Read.Selected
import EntityGraph.Proofs.Sparql.Expression
import EntityGraph.Proofs.Filter.Verdict
import EntityGraph.Proofs.Filter.NullSafe
import EntityGraph.Proofs.Read.Shared
import EntityGraph.Proofs.Pattern.Monoid
import EntityGraph.Proofs.Pattern.Lists
import EntityGraph.Proofs.Pattern.Stored
import EntityGraph.Proofs.Naming.Nearest
import EntityGraph.Proofs.Naming.Arena
import EntityGraph.Proofs.Branch.Paths
import EntityGraph.Proofs.Branch.Tree
import EntityGraph.Proofs.Pattern.Exclusive
import EntityGraph.Proofs.Pattern.Seats
import EntityGraph.Proofs.Read.Displayed
import EntityGraph.Proofs.Read.Located
import EntityGraph.Proofs.Read.Unions
import EntityGraph.Proofs.Sparql.Literal
import EntityGraph.Proofs.Expand.Paths
import EntityGraph.Proofs.Placement.Registry
import EntityGraph.Proofs.Read.Registered
import EntityGraph.Proofs.Number.Decimal
import EntityGraph.Proofs.Number.Rounding
import EntityGraph.Proofs.Number.Grids
import EntityGraph.Proofs.Number.Shortest
import EntityGraph.Proofs.Filter.Numbers
import EntityGraph.Proofs.Read.ById
import EntityGraph.Proofs.CommandLine.Identifier
