import TableQuery.CommandLine.Basic
import TableQuery.CommandLine.Options
import TableQuery.Context.Basic
import TableQuery.Context.Error
import TableQuery.Context.Evaluation
import TableQuery.Context.Evaluator
import TableQuery.Context.Filter
import TableQuery.Context.Frame
import TableQuery.Context.Grouping
import TableQuery.Context.Join
import TableQuery.Context.Projection
import TableQuery.Context.Sorting
import TableQuery.Context.Window
import TableQuery.Expr.Basic
import TableQuery.Expr.Parser
import TableQuery.Expr.Window
import TableQuery.Function.Aggregate
import TableQuery.Function.Basic
import TableQuery.Function.Scalar
import TableQuery.Function.Window
import TableQuery.Json.Indented
import TableQuery.Json.Numeral
import TableQuery.Json.Quoted
import TableQuery.Json.Reader
import TableQuery.Labelled
import TableQuery.Main
import TableQuery.Number.Binary
import TableQuery.Number.Fixed
import TableQuery.Number.Notation
import TableQuery.Number.Reader
import TableQuery.Number.Rounding
import TableQuery.Number.Shortest
import TableQuery.Operator.Binary
import TableQuery.Operator.Cast
import TableQuery.Operator.Error
import TableQuery.Operator.Unary
import TableQuery.Pattern.Basic
import TableQuery.Pattern.Like
import TableQuery.Proofs.Alignment
import TableQuery.Proofs.Alike
import TableQuery.Proofs.Amounts
import TableQuery.Proofs.Answers
import TableQuery.Proofs.Arguments
import TableQuery.Proofs.Buckets
import TableQuery.Proofs.CompleteViews
import TableQuery.Proofs.Conditions
import TableQuery.Proofs.Coupled
import TableQuery.Proofs.DerivedTables
import TableQuery.Proofs.DistinctCounts
import TableQuery.Proofs.DistinctRows
import TableQuery.Proofs.Ensures
import TableQuery.Proofs.EqualityKeys
import TableQuery.Proofs.Expansions
import TableQuery.Proofs.Extents
import TableQuery.Proofs.Extremes
import TableQuery.Proofs.FirstMembers
import TableQuery.Proofs.FirstRow
import TableQuery.Proofs.Footprints
import TableQuery.Proofs.GroupRows
import TableQuery.Proofs.Grouped
import TableQuery.Proofs.Having
import TableQuery.Proofs.ImplicitGroup
import TableQuery.Proofs.Independence
import TableQuery.Proofs.InternalErrors
import TableQuery.Proofs.Joined
import TableQuery.Proofs.KeyCondition
import TableQuery.Proofs.KeyPartition
import TableQuery.Proofs.Lasting
import TableQuery.Proofs.LeftJoin
import TableQuery.Proofs.Lexemes
import TableQuery.Proofs.LikeMatching
import TableQuery.Proofs.LikeSource
import TableQuery.Proofs.Limit
import TableQuery.Proofs.Locality
import TableQuery.Proofs.Memory
import TableQuery.Proofs.Merge
import TableQuery.Proofs.MissingCells
import TableQuery.Proofs.Mixing
import TableQuery.Proofs.NearRows
import TableQuery.Proofs.Nesting
import TableQuery.Proofs.Numerals
import TableQuery.Proofs.Operands
import TableQuery.Proofs.OrderedRows
import TableQuery.Proofs.Parallel
import TableQuery.Proofs.Parentheses
import TableQuery.Proofs.Peers
import TableQuery.Proofs.Projection
import TableQuery.Proofs.Ranking
import TableQuery.Proofs.ReadExpr
import TableQuery.Proofs.ReadStatement
import TableQuery.Proofs.Readers
import TableQuery.Proofs.Reading
import TableQuery.Proofs.ReadingEnds
import TableQuery.Proofs.Recalled
import TableQuery.Proofs.Recomputed
import TableQuery.Proofs.Resolution
import TableQuery.Proofs.ResultTables
import TableQuery.Proofs.RowOrder
import TableQuery.Proofs.RowsAlone
import TableQuery.Proofs.Safety
import TableQuery.Proofs.SameKeys
import TableQuery.Proofs.SameRow
import TableQuery.Proofs.SelectedGroups
import TableQuery.Proofs.SelectedKeys
import TableQuery.Proofs.Selection
import TableQuery.Proofs.Simulation
import TableQuery.Proofs.SortLaws
import TableQuery.Proofs.SortedDistinct
import TableQuery.Proofs.SortedPartitions
import TableQuery.Proofs.SortedRows
import TableQuery.Proofs.Sources
import TableQuery.Proofs.StableSorting
import TableQuery.Proofs.Ternary
import TableQuery.Proofs.Transparency
import TableQuery.Proofs.TrustedRows
import TableQuery.Proofs.UndeclaredFields
import TableQuery.Proofs.Undisturbed
import TableQuery.Proofs.Uniform
import TableQuery.Proofs.ValueOrder
import TableQuery.Proofs.Vouching
import TableQuery.Proofs.WholeGroup
import TableQuery.Proofs.WholePartition
import TableQuery.Proofs.Wildcards
import TableQuery.Proofs.WindowPlaces
import TableQuery.Proofs.WindowReads
import TableQuery.Proofs.WindowResults
import TableQuery.Proofs.Writing
import TableQuery.Regex.Basic
import TableQuery.Regex.CharSet
import TableQuery.Regex.Match
import TableQuery.Regex.Piece
import TableQuery.Regex.Reader
import TableQuery.Regex.SetSize
import TableQuery.Regex.Size
import TableQuery.Session
import TableQuery.Statement.Basic
import TableQuery.Statement.Error
import TableQuery.Statement.Execution
import TableQuery.Statement.Parser
import TableQuery.Statement.Progress
import TableQuery.Statement.Stack
import TableQuery.Table.Grid
import TableQuery.Table.View
import TableQuery.Text.Blank
import TableQuery.Text.CaseFold
import TableQuery.Text.Casing
import TableQuery.Text.Letter
import TableQuery.Text.Lowercase
import TableQuery.Text.Mark
import TableQuery.Text.Numeral
import TableQuery.Text.Ranges
import TableQuery.Text.Uppercase
import TableQuery.Text.Utf8
import TableQuery.Text.Word
import TableQuery.Token.Basic
import TableQuery.Token.Lexer
import TableQuery.Value.Basic
import TableQuery.Value.Order
import TableQuery.Value.Text
