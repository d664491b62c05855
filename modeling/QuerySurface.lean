import QuerySurface.Catalog
import QuerySurface.CommandLine.Arguments
import QuerySurface.CommandLine.Run
import QuerySurface.Decimal.Double
import QuerySurface.Decimal.Nearest
import QuerySurface.Decimal.Shortest
import QuerySurface.Failure
import QuerySurface.Files.Disk
import QuerySurface.Files.Fault
import QuerySurface.Files.Path
import QuerySurface.Files.TextFile
import QuerySurface.Files.Tree
import QuerySurface.Json.Numeral
import QuerySurface.Json.Printer
import QuerySurface.Json.Reader
import QuerySurface.Json.Token
import QuerySurface.Json.Tree
import QuerySurface.Json.Value
import QuerySurface.Layout.Basic
import QuerySurface.Layout.Check
import QuerySurface.Layout.Naming
import QuerySurface.Main
import QuerySurface.Plan.Backend
import QuerySurface.Plan.Basic
import QuerySurface.Plan.Data
import QuerySurface.Plan.Derive
import QuerySurface.Plan.Prune
import QuerySurface.Schema.Declaration
import QuerySurface.Schema.Diagnostics
import QuerySurface.Schema.Disk
import QuerySurface.Schema.Document
import QuerySurface.Schema.Draft
import QuerySurface.Schema.Graph
import QuerySurface.Schema.Kind
import QuerySurface.Schema.Loading
import QuerySurface.Schema.Overrides
import QuerySurface.Schema.TypeRef
import QuerySurface.Settings.Basic
import QuerySurface.Settings.Conversion
import QuerySurface.Settings.Environment
import QuerySurface.Settings.Load
import QuerySurface.Settings.Path
import QuerySurface.Settings.Raw
import QuerySurface.Settings.Reading
import QuerySurface.Settings.Save
import QuerySurface.Text.Blank
import QuerySurface.Text.Case
import QuerySurface.Text.Decode
import QuerySurface.Text.Identifier
import QuerySurface.Text.Letter
import QuerySurface.Text.Quoted
import QuerySurface.Toml.Numeral
import QuerySurface.Toml.Quoting
import QuerySurface.Toml.Reader
import QuerySurface.Toml.Scan
import QuerySurface.Toml.Section
import QuerySurface.Toml.Value
import QuerySurface.Toml.Writer
import QuerySurface.Traits.Emitter
import QuerySurface.Traits.Name
import QuerySurface.Traits.Render
import QuerySurface.Proofs.Catalog.LastWins
import QuerySurface.Proofs.Files.Writing
import QuerySurface.Proofs.Layout.Accepted
import QuerySurface.Proofs.Layout.Decorated
import QuerySurface.Proofs.Plan.Derived
import QuerySurface.Proofs.Plan.LiveReferences
import QuerySurface.Proofs.Plan.Names
import QuerySurface.Proofs.Plan.Pruning
import QuerySurface.Proofs.Plan.References
import QuerySurface.Proofs.Plan.Resolved
import QuerySurface.Proofs.Plan.Values
import QuerySurface.Proofs.Plan.Views
import QuerySurface.Proofs.Schema.Building
import QuerySurface.Proofs.Schema.Declared
import QuerySurface.Proofs.Schema.Hierarchy
import QuerySurface.Proofs.Schema.Places
import QuerySurface.Proofs.Schema.Outcome
import QuerySurface.Proofs.Schema.Problems
import QuerySurface.Proofs.Traits.Arguments
import QuerySurface.Proofs.Traits.Emission
import QuerySurface.Proofs.Traits.Inherited
import QuerySurface.Proofs.Traits.OutputPaths
import QuerySurface.Proofs.Traits.Source
import QuerySurface.Proofs.Traits.Modules
import QuerySurface.Proofs.Catalog.Apart
import QuerySurface.Proofs.Schema.Relocation
import QuerySurface.Proofs.Schema.Slots
import QuerySurface.Proofs.Plan.Relocation
import QuerySurface.Proofs.Plan.Reordering
import QuerySurface.Proofs.Schema.Merging
import QuerySurface.Proofs.Schema.Strictness
import QuerySurface.Proofs.Plan.Renaming
import QuerySurface.Proofs.Files.Confinement
import QuerySurface.Proofs.Traits.Containment
import QuerySurface.Proofs.Schema.Chains
import QuerySurface.Proofs.Plan.Extension
import QuerySurface.Proofs.Schema.Defaults
import QuerySurface.Proofs.Schema.ReadBack
import QuerySurface.Proofs.Plan.Marks
import QuerySurface.Proofs.Plan.Selectors
import QuerySurface.Proofs.Files.Recorded
import QuerySurface.Proofs.CommandLine.AllOrNothing
import QuerySurface.Proofs.Json.Completion
import QuerySurface.Proofs.Layout.ReadBack
import QuerySurface.Proofs.Schema.Walks
import QuerySurface.Proofs.Schema.Comments
import QuerySurface.Proofs.Schema.Accounting
import QuerySurface.Proofs.Schema.Mentions
import QuerySurface.Proofs.Plan.Subtypes
import QuerySurface.Proofs.Text.Names
import QuerySurface.Proofs.Text.Tokens
import QuerySurface.Proofs.Schema.Notation
import QuerySurface.Proofs.Schema.Malformed
import QuerySurface.Proofs.Traits.Words
import QuerySurface.Proofs.Traits.Signatures
import QuerySurface.Proofs.Layout.Naming
import QuerySurface.Proofs.Traits.Refusals
import QuerySurface.Proofs.Traits.Comments
import QuerySurface.Proofs.Traits.Legality
import QuerySurface.Proofs.Files.Listing
import QuerySurface.Proofs.Json.Maps
import QuerySurface.Proofs.Layout.Scalars
import QuerySurface.Proofs.Plan.Dumping
import QuerySurface.Proofs.Schema.Directories
import QuerySurface.Proofs.Schema.Roots
