import ResourceQuery.Access
import ResourceQuery.Action
import ResourceQuery.Client
import ResourceQuery.CommandLine.Arguments
import ResourceQuery.CommandLine.Run
import ResourceQuery.CommandLine.Usage
import ResourceQuery.Config
import ResourceQuery.Data.Entries
import ResourceQuery.Data.KeyedList
import ResourceQuery.Error
import ResourceQuery.Expr.Basic
import ResourceQuery.Expr.Equality
import ResourceQuery.Expr.Eval
import ResourceQuery.Expr.Lambda
import ResourceQuery.Expr.Parser
import ResourceQuery.Expr.Printer
import ResourceQuery.Expr.Scope
import ResourceQuery.Expr.Token
import ResourceQuery.Expr.Typing
import ResourceQuery.Http.Message
import ResourceQuery.Http.Report
import ResourceQuery.Json.Basic
import ResourceQuery.Json.Reader
import ResourceQuery.Json.Skip
import ResourceQuery.Json.Writer
import ResourceQuery.Main
import ResourceQuery.Notation.Basic
import ResourceQuery.Notation.Expr
import ResourceQuery.Notation.Read.Basic
import ResourceQuery.Notation.Read.Expr
import ResourceQuery.Notation.Read.Query
import ResourceQuery.Notation.Read.Type
import ResourceQuery.Notation.Read.Value
import ResourceQuery.Notation.Type
import ResourceQuery.Notation.Value
import ResourceQuery.Number.Binary64
import ResourceQuery.Number.Decimal
import ResourceQuery.Number.Shortest
import ResourceQuery.Number.Word
import ResourceQuery.Proofs.Data.Entries
import ResourceQuery.Proofs.Expr.Binding
import ResourceQuery.Proofs.Expr.Builders
import ResourceQuery.Proofs.Expr.Capture
import ResourceQuery.Proofs.Expr.Confidentiality
import ResourceQuery.Proofs.Expr.Congruence
import ResourceQuery.Proofs.Expr.Derivation
import ResourceQuery.Proofs.Expr.Floats
import ResourceQuery.Proofs.Expr.Folding
import ResourceQuery.Proofs.Expr.Grammar
import ResourceQuery.Proofs.Expr.Limits
import ResourceQuery.Proofs.Expr.Nameless
import ResourceQuery.Proofs.Expr.NormalForms
import ResourceQuery.Proofs.Expr.Precedence
import ResourceQuery.Proofs.Expr.Printing
import ResourceQuery.Proofs.Expr.Reading
import ResourceQuery.Proofs.Expr.Recognition
import ResourceQuery.Proofs.Expr.RoundTrip
import ResourceQuery.Proofs.Expr.Simplification
import ResourceQuery.Proofs.Expr.Soundness
import ResourceQuery.Proofs.Expr.Spelling
import ResourceQuery.Proofs.Expr.Stability
import ResourceQuery.Proofs.Expr.Substitution
import ResourceQuery.Proofs.Expr.TextFunctions
import ResourceQuery.Proofs.Expr.Typing
import ResourceQuery.Proofs.Expr.Unambiguity
import ResourceQuery.Proofs.Expr.Variables
import ResourceQuery.Proofs.Expr.Written
import ResourceQuery.Proofs.Number.Bits
import ResourceQuery.Proofs.Number.Rounding
import ResourceQuery.Proofs.Number.Shortest
import ResourceQuery.Proofs.Query.Acceptance
import ResourceQuery.Proofs.Query.Caching
import ResourceQuery.Proofs.Query.Canonical
import ResourceQuery.Proofs.Query.Chains
import ResourceQuery.Proofs.Query.Comparisons
import ResourceQuery.Proofs.Query.Expansion
import ResourceQuery.Proofs.Query.Grouping
import ResourceQuery.Proofs.Query.Identifiers
import ResourceQuery.Proofs.Query.ItemTypes
import ResourceQuery.Proofs.Query.Merging
import ResourceQuery.Proofs.Query.Nesting
import ResourceQuery.Proofs.Query.Normalization
import ResourceQuery.Proofs.Query.Paging
import ResourceQuery.Proofs.Query.Plans
import ResourceQuery.Proofs.Query.Restriction
import ResourceQuery.Proofs.Query.Rows
import ResourceQuery.Proofs.Query.Segments
import ResourceQuery.Proofs.Query.Serving
import ResourceQuery.Proofs.Query.SortKeys
import ResourceQuery.Proofs.Query.Sorting
import ResourceQuery.Proofs.Query.Sums
import ResourceQuery.Proofs.Query.Transport
import ResourceQuery.Proofs.Store.Histories
import ResourceQuery.Proofs.Text.Occurrences
import ResourceQuery.Proofs.Text.Percent
import ResourceQuery.Proofs.Text.Splitting
import ResourceQuery.Proofs.Time.Rfc3339
import ResourceQuery.Proofs.Type.Address
import ResourceQuery.Proofs.Type.Ancestry
import ResourceQuery.Proofs.Type.Arguments
import ResourceQuery.Proofs.Type.Assignability
import ResourceQuery.Proofs.Type.Calls
import ResourceQuery.Proofs.Type.Collections
import ResourceQuery.Proofs.Type.Comparison
import ResourceQuery.Proofs.Type.Consistency
import ResourceQuery.Proofs.Type.Course
import ResourceQuery.Proofs.Type.Declarations
import ResourceQuery.Proofs.Type.Defaults
import ResourceQuery.Proofs.Type.Description
import ResourceQuery.Proofs.Type.Distinction
import ResourceQuery.Proofs.Type.Folding
import ResourceQuery.Proofs.Type.Growth
import ResourceQuery.Proofs.Type.Histories
import ResourceQuery.Proofs.Type.Inheritance
import ResourceQuery.Proofs.Type.Labels
import ResourceQuery.Proofs.Type.Lineage
import ResourceQuery.Proofs.Type.Naming
import ResourceQuery.Proofs.Type.Placement
import ResourceQuery.Proofs.Type.Resolution
import ResourceQuery.Proofs.Type.Spellings
import ResourceQuery.Proofs.Type.Tables
import ResourceQuery.Proofs.Type.Templates
import ResourceQuery.Proofs.Type.Termination
import ResourceQuery.Proofs.Value.Bisimilarity
import ResourceQuery.Proofs.Value.Conformance
import ResourceQuery.Proofs.Value.Equivalence
import ResourceQuery.Proofs.Value.Loading
import ResourceQuery.Proofs.Value.Renaming
import ResourceQuery.Proofs.Value.Storing
import ResourceQuery.Proofs.Value.Twins
import ResourceQuery.Proofs.Wire.Batches
import ResourceQuery.Proofs.Wire.Calls
import ResourceQuery.Proofs.Wire.Conformity
import ResourceQuery.Proofs.Wire.Copies
import ResourceQuery.Proofs.Wire.Cycles
import ResourceQuery.Proofs.Wire.Decoding
import ResourceQuery.Proofs.Wire.Dictionaries
import ResourceQuery.Proofs.Wire.Disclosure
import ResourceQuery.Proofs.Wire.Encoding
import ResourceQuery.Proofs.Wire.Enforcement
import ResourceQuery.Proofs.Wire.Frame
import ResourceQuery.Proofs.Wire.Instances
import ResourceQuery.Proofs.Wire.ItemEdits
import ResourceQuery.Proofs.Wire.ItemPatches
import ResourceQuery.Proofs.Wire.ListPatches
import ResourceQuery.Proofs.Wire.Mentions
import ResourceQuery.Proofs.Wire.Names
import ResourceQuery.Proofs.Wire.ObjectPatches
import ResourceQuery.Proofs.Wire.Parallel
import ResourceQuery.Proofs.Wire.Places
import ResourceQuery.Proofs.Wire.Rejection
import ResourceQuery.Proofs.Wire.Renumbering
import ResourceQuery.Proofs.Wire.RoundTrip
import ResourceQuery.Proofs.Wire.Slots
import ResourceQuery.Proofs.Wire.Standard
import ResourceQuery.Proofs.Wire.Touched
import ResourceQuery.Proofs.Wire.Tracking
import ResourceQuery.Proofs.Wire.Versions
import ResourceQuery.Query.Answer
import ResourceQuery.Query.Chain
import ResourceQuery.Query.Execution
import ResourceQuery.Query.Parameters
import ResourceQuery.Query.ParseCache
import ResourceQuery.Query.Plan
import ResourceQuery.Query.Projection
import ResourceQuery.Query.Rows
import ResourceQuery.Query.Uri
import ResourceQuery.Server
import ResourceQuery.Store.Repository
import ResourceQuery.Text.Basic
import ResourceQuery.Text.CaseMap
import ResourceQuery.Text.CharClass
import ResourceQuery.Text.Percent
import ResourceQuery.Time.Rfc3339
import ResourceQuery.Time.Timestamp
import ResourceQuery.Toml.Basic
import ResourceQuery.Toml.DateTable
import ResourceQuery.Toml.Reader
import ResourceQuery.Toml.Scalar
import ResourceQuery.Type.Address
import ResourceQuery.Type.Descriptor
import ResourceQuery.Type.Graph
import ResourceQuery.Type.Native
import ResourceQuery.Type.NativeParser
import ResourceQuery.Type.Registry
import ResourceQuery.Type.Resolver
import ResourceQuery.Type.SchemaFile
import ResourceQuery.Value.Aggregate
import ResourceQuery.Value.Basic
import ResourceQuery.Value.Equality
import ResourceQuery.Value.Heap
import ResourceQuery.Value.Reference
import ResourceQuery.Value.Trait
import ResourceQuery.Wire.Context
import ResourceQuery.Wire.Expansion
import ResourceQuery.Wire.Node
import ResourceQuery.Wire.Reader
import ResourceQuery.Wire.Writer
