import SemanticLayer.Blend.Answer
import SemanticLayer.Blend.BlendedRows
import SemanticLayer.Blend.Codec
import SemanticLayer.Blend.ComparedRows
import SemanticLayer.Blend.Compilation
import SemanticLayer.Blend.Dataframe
import SemanticLayer.Blend.MetricRows
import SemanticLayer.Blend.Plan
import SemanticLayer.Blend.Request
import SemanticLayer.Blend.RequestTaxons
import SemanticLayer.Blend.SourceRows
import SemanticLayer.Collections.SortedMap
import SemanticLayer.Collections.SortedSet
import SemanticLayer.Digest
import SemanticLayer.Error
import SemanticLayer.Filter.Clause
import SemanticLayer.Filter.Condition
import SemanticLayer.Formula.Constant
import SemanticLayer.Formula.DataType
import SemanticLayer.Formula.Evaluation
import SemanticLayer.Formula.Fault
import SemanticLayer.Formula.Function
import SemanticLayer.Formula.Node
import SemanticLayer.Formula.Outcome
import SemanticLayer.Formula.Parser
import SemanticLayer.Formula.Phase
import SemanticLayer.Formula.Plan
import SemanticLayer.Formula.Resolution
import SemanticLayer.Formula.Scope
import SemanticLayer.Formula.Simplification
import SemanticLayer.Formula.Token
import SemanticLayer.Formula.Tree
import SemanticLayer.Formula.Typing
import SemanticLayer.Formula.Validation
import SemanticLayer.Identifier
import SemanticLayer.JoinGraph.Definition
import SemanticLayer.JoinGraph.Search
import SemanticLayer.JoinGraph.Tree
import SemanticLayer.Json.Decode
import SemanticLayer.Json.Parser
import SemanticLayer.Json.Printer
import SemanticLayer.Json.Value
import SemanticLayer.Main
import SemanticLayer.Model.Augmentation
import SemanticLayer.Model.Codec
import SemanticLayer.Model.Definition
import SemanticLayer.Model.Kind
import SemanticLayer.Model.Scope
import SemanticLayer.Number.Double
import SemanticLayer.Number.Layout
import SemanticLayer.Number.Shortest
import SemanticLayer.Override.Mapping
import SemanticLayer.Override.Query
import SemanticLayer.Override.Use
import SemanticLayer.Proofs.Blend.AggregateScoping
import SemanticLayer.Proofs.Blend.AnsweredTaxons
import SemanticLayer.Proofs.Blend.AskedTaxons
import SemanticLayer.Proofs.Blend.BlendedScoping
import SemanticLayer.Proofs.Blend.ColumnListing
import SemanticLayer.Proofs.Blend.ComparedTaxons
import SemanticLayer.Proofs.Blend.ComparisonMatching
import SemanticLayer.Proofs.Blend.ComparisonScoping
import SemanticLayer.Proofs.Blend.FilteredTaxons
import SemanticLayer.Proofs.Blend.FormulaColumns
import SemanticLayer.Proofs.Blend.FormulaScoping
import SemanticLayer.Proofs.Blend.GroupingSets
import SemanticLayer.Proofs.Blend.Isolation
import SemanticLayer.Proofs.Blend.Labels
import SemanticLayer.Proofs.Blend.PartFilters
import SemanticLayer.Proofs.Blend.PartOrders
import SemanticLayer.Proofs.Blend.RequestOrder
import SemanticLayer.Proofs.Blend.ResultScoping
import SemanticLayer.Proofs.Blend.RowMatching
import SemanticLayer.Proofs.Blend.Scoping
import SemanticLayer.Proofs.Blend.Slots
import SemanticLayer.Proofs.Blend.SortingTaxons
import SemanticLayer.Proofs.Blend.SourceScoping
import SemanticLayer.Proofs.Blend.Stages
import SemanticLayer.Proofs.Blend.Tables
import SemanticLayer.Proofs.Collections.Entries
import SemanticLayer.Proofs.Filter.Codec
import SemanticLayer.Proofs.Filter.Complements
import SemanticLayer.Proofs.Filter.Conditions
import SemanticLayer.Proofs.Filter.WellFormed
import SemanticLayer.Proofs.Formula.Additivity
import SemanticLayer.Proofs.Formula.Arithmetic
import SemanticLayer.Proofs.Formula.Choices
import SemanticLayer.Proofs.Formula.CommonAggregations
import SemanticLayer.Proofs.Formula.Evaluability
import SemanticLayer.Proofs.Formula.EvaluatedUnits
import SemanticLayer.Proofs.Formula.EvaluatedWindows
import SemanticLayer.Proofs.Formula.Expansion
import SemanticLayer.Proofs.Formula.Exposure
import SemanticLayer.Proofs.Formula.Failures
import SemanticLayer.Proofs.Formula.Filling
import SemanticLayer.Proofs.Formula.GroupedTotals
import SemanticLayer.Proofs.Formula.HeldMetrics
import SemanticLayer.Proofs.Formula.Labels
import SemanticLayer.Proofs.Formula.Levels
import SemanticLayer.Proofs.Formula.Lexing
import SemanticLayer.Proofs.Formula.Numbering
import SemanticLayer.Proofs.Formula.Parts
import SemanticLayer.Proofs.Formula.PassedUnits
import SemanticLayer.Proofs.Formula.PhaseOrder
import SemanticLayer.Proofs.Formula.Plain
import SemanticLayer.Proofs.Formula.Plannability
import SemanticLayer.Proofs.Formula.Printing
import SemanticLayer.Proofs.Formula.ReadColumns
import SemanticLayer.Proofs.Formula.Reading
import SemanticLayer.Proofs.Formula.References
import SemanticLayer.Proofs.Formula.Rereading
import SemanticLayer.Proofs.Formula.RowFormulas
import SemanticLayer.Proofs.Formula.Rules
import SemanticLayer.Proofs.Formula.RunningTotals
import SemanticLayer.Proofs.Formula.Sealing
import SemanticLayer.Proofs.Formula.ShownUnits
import SemanticLayer.Proofs.Formula.Simplified
import SemanticLayer.Proofs.Formula.Spans
import SemanticLayer.Proofs.Formula.Steady
import SemanticLayer.Proofs.Formula.Stripping
import SemanticLayer.Proofs.Formula.SucceedingMetrics
import SemanticLayer.Proofs.Formula.Termination
import SemanticLayer.Proofs.Formula.ValidCalls
import SemanticLayer.Proofs.Formula.Validity
import SemanticLayer.Proofs.Identifier.Collisions
import SemanticLayer.Proofs.Identifier.SafeNames
import SemanticLayer.Proofs.JoinGraph.Completeness
import SemanticLayer.Proofs.JoinGraph.Edges
import SemanticLayer.Proofs.JoinGraph.Leaves
import SemanticLayer.Proofs.JoinGraph.Models
import SemanticLayer.Proofs.JoinGraph.Multiplicity
import SemanticLayer.Proofs.JoinGraph.Soundness
import SemanticLayer.Proofs.JoinGraph.Trees
import SemanticLayer.Proofs.JoinGraph.Walks
import SemanticLayer.Proofs.Json.Records
import SemanticLayer.Proofs.Json.RoundTrips
import SemanticLayer.Proofs.Json.Scalars
import SemanticLayer.Proofs.Json.Texts
import SemanticLayer.Proofs.Model.Additions
import SemanticLayer.Proofs.Model.Augmentation
import SemanticLayer.Proofs.Model.ReferenceDepth
import SemanticLayer.Proofs.Override.Replacement
import SemanticLayer.Proofs.Result
import SemanticLayer.Proofs.Sql.Binding
import SemanticLayer.Proofs.Sql.Clauses
import SemanticLayer.Proofs.Sql.CommonTables
import SemanticLayer.Proofs.Sql.Names
import SemanticLayer.Proofs.Sql.Nesting
import SemanticLayer.Proofs.Sql.OperatorChains
import SemanticLayer.Proofs.Sql.OutputAliases
import SemanticLayer.Proofs.Sql.Parts
import SemanticLayer.Proofs.Sql.Patterns
import SemanticLayer.Proofs.Sql.Phrases
import SemanticLayer.Proofs.Sql.Quotes
import SemanticLayer.Proofs.Sql.Reading
import SemanticLayer.Proofs.Sql.ReadingBack
import SemanticLayer.Proofs.Sql.Regrouping
import SemanticLayer.Proofs.Sql.RowEvaluation
import SemanticLayer.Proofs.Sql.Scoping
import SemanticLayer.Proofs.Sql.Spelling
import SemanticLayer.Proofs.Sql.TimeUnits
import SemanticLayer.Proofs.Sql.Unions
import SemanticLayer.Proofs.Sql.Windows
import SemanticLayer.Proofs.Sql.Writing
import SemanticLayer.Proofs.Taxonomy.AggregationReferences
import SemanticLayer.Proofs.Taxonomy.Aggregations
import SemanticLayer.Proofs.Taxonomy.Closure
import SemanticLayer.Proofs.Taxonomy.Codec
import SemanticLayer.Proofs.Taxonomy.CyclicTaxons
import SemanticLayer.Proofs.Taxonomy.Listing
import SemanticLayer.Proofs.Taxonomy.Precalculation
import SemanticLayer.Proofs.Taxonomy.QueriedFormulas
import SemanticLayer.Proofs.Taxonomy.RequiredPhases
import SemanticLayer.Proofs.Taxonomy.Rounds
import SemanticLayer.Proofs.Taxonomy.Usability
import SemanticLayer.Settings.Definition
import SemanticLayer.Slug
import SemanticLayer.Sql.Dialect
import SemanticLayer.Sql.Expr
import SemanticLayer.Sql.OutputAlias
import SemanticLayer.Sql.Pattern
import SemanticLayer.Sql.Query
import SemanticLayer.Sql.Rendering
import SemanticLayer.Sql.Token
import SemanticLayer.Taxonomy.Aggregation
import SemanticLayer.Taxonomy.Codec
import SemanticLayer.Taxonomy.Facts
import SemanticLayer.Taxonomy.Kind
import SemanticLayer.Taxonomy.Resolver
import SemanticLayer.Taxonomy.Taxon
import SemanticLayer.Text.Alphabetic
import SemanticLayer.Text.CharClass
import SemanticLayer.Text.Numeric
import SemanticLayer.Text.Uppercase
import SemanticLayer.Toml.Document
import SemanticLayer.Toml.Parser
import SemanticLayer.Toml.Scalar
import SemanticLayer.Toml.Token
import SemanticLayer.Toml.Value
