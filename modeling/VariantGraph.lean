import VariantGraph.Attribute
import VariantGraph.CommandLine
import VariantGraph.CommandLine.Grammar
import VariantGraph.CommandLine.Help
import VariantGraph.CommandLine.Paths
import VariantGraph.Config
import VariantGraph.ConflictReport
import VariantGraph.Constraint
import VariantGraph.Coordinates
import VariantGraph.Coordinates.Capability
import VariantGraph.Coordinates.Exclude
import VariantGraph.Dependency
import VariantGraph.Digest
import VariantGraph.Digest.Md5
import VariantGraph.Digest.Sha1
import VariantGraph.Digest.Sha256
import VariantGraph.Document
import VariantGraph.Document.Meaning
import VariantGraph.Document.Reader
import VariantGraph.Document.Writer
import VariantGraph.Fields
import VariantGraph.FileTree
import VariantGraph.FileTree.Draft
import VariantGraph.Graph
import VariantGraph.Graph.Path
import VariantGraph.Graph.Tree
import VariantGraph.Json
import VariantGraph.Json.Fields
import VariantGraph.Json.Number
import VariantGraph.Json.Printer
import VariantGraph.Json.Reader
import VariantGraph.Json.Text
import VariantGraph.Layout
import VariantGraph.Main
import VariantGraph.Manifest
import VariantGraph.Manifest.Dependencies
import VariantGraph.Manifest.Publication
import VariantGraph.Manifest.Reader
import VariantGraph.Manifest.Resolution
import VariantGraph.Path
import VariantGraph.Project
import VariantGraph.Project.Publishing
import VariantGraph.Proofs.Attribute
import VariantGraph.Proofs.ConflictReport
import VariantGraph.Proofs.Coordinates
import VariantGraph.Proofs.Document.Links
import VariantGraph.Proofs.Document.RoundTrip
import VariantGraph.Proofs.FileTree
import VariantGraph.Proofs.FileTree.Draft
import VariantGraph.Proofs.FileTree.Replacing
import VariantGraph.Proofs.Graph
import VariantGraph.Proofs.Graph.Building
import VariantGraph.Proofs.Graph.Listing
import VariantGraph.Proofs.Graph.Path
import VariantGraph.Proofs.Graph.Search
import VariantGraph.Proofs.Layout
import VariantGraph.Proofs.Publication.AllOrNothing
import VariantGraph.Proofs.Publication.Apart
import VariantGraph.Proofs.Publication.Declarations
import VariantGraph.Proofs.Publication.Hosting
import VariantGraph.Proofs.Publication.Publishing
import VariantGraph.Proofs.Publication.Reading
import VariantGraph.Proofs.Publication.Representable
import VariantGraph.Proofs.Resolution.AbandonedRoutes
import VariantGraph.Proofs.Resolution.Agreement
import VariantGraph.Proofs.Resolution.Arrival
import VariantGraph.Proofs.Resolution.Batches
import VariantGraph.Proofs.Resolution.Calls
import VariantGraph.Proofs.Resolution.Capabilities
import VariantGraph.Proofs.Resolution.Complete
import VariantGraph.Proofs.Resolution.Coverage
import VariantGraph.Proofs.Resolution.EdgeTable
import VariantGraph.Proofs.Resolution.Fetching
import VariantGraph.Proofs.Resolution.Fixpoint
import VariantGraph.Proofs.Resolution.History
import VariantGraph.Proofs.Resolution.Inheritance
import VariantGraph.Proofs.Resolution.Interleaving
import VariantGraph.Proofs.Resolution.Invariant
import VariantGraph.Proofs.Resolution.Leftover
import VariantGraph.Proofs.Resolution.Merging
import VariantGraph.Proofs.Resolution.Namesakes
import VariantGraph.Proofs.Resolution.NodeState
import VariantGraph.Proofs.Resolution.Nodes
import VariantGraph.Proofs.Resolution.Passes
import VariantGraph.Proofs.Resolution.Precedence
import VariantGraph.Proofs.Resolution.Reachability
import VariantGraph.Proofs.Resolution.Recording
import VariantGraph.Proofs.Resolution.Reported
import VariantGraph.Proofs.Resolution.Reserve
import VariantGraph.Proofs.Resolution.Routes
import VariantGraph.Proofs.Resolution.Service
import VariantGraph.Proofs.Resolution.Stages
import VariantGraph.Proofs.Resolution.Termination
import VariantGraph.Proofs.Resolution.Winners
import VariantGraph.Proofs.Resolution.Written
import VariantGraph.Proofs.Schema
import VariantGraph.Proofs.Schema.Representation
import VariantGraph.Proofs.Selection
import VariantGraph.Proofs.Selection.Acceptance
import VariantGraph.Proofs.Selection.Narrowing
import VariantGraph.Proofs.Selection.Ordered
import VariantGraph.Proofs.Selection.Representation
import VariantGraph.Proofs.Selection.Shared
import VariantGraph.Proofs.Table
import VariantGraph.Proofs.Traversal
import VariantGraph.Proofs.Version.BestMatch
import VariantGraph.Proofs.Version.Circles
import VariantGraph.Proofs.Version.Numbers
import VariantGraph.Proofs.Version.Order
import VariantGraph.Proofs.Version.Selector
import VariantGraph.Proofs.Version.Tokens
import VariantGraph.Proofs.VersionChoice
import VariantGraph.Proofs.VersionChoice.Blanks
import VariantGraph.Proofs.VersionChoice.Comparison
import VariantGraph.Proofs.VersionChoice.Covered
import VariantGraph.Proofs.VersionChoice.Discovery
import VariantGraph.Proofs.VersionChoice.StrictRanges
import VariantGraph.Publication
import VariantGraph.Publication.Document
import VariantGraph.Publication.Output
import VariantGraph.Repository
import VariantGraph.Resolution.Cache
import VariantGraph.Resolution.Decision
import VariantGraph.Resolution.Display
import VariantGraph.Resolution.EdgeTable
import VariantGraph.Resolution.NodeState
import VariantGraph.Resolution.Positions
import VariantGraph.Resolution.Run
import VariantGraph.Resolution.Traversal
import VariantGraph.Rules
import VariantGraph.Schema
import VariantGraph.Selection
import VariantGraph.Table
import VariantGraph.Text.Blank
import VariantGraph.Text.CaseTable
import VariantGraph.Text.Double
import VariantGraph.Text.Fields
import VariantGraph.Text.Integer
import VariantGraph.Text.Lowercase
import VariantGraph.Text.Terminal
import VariantGraph.Toml
import VariantGraph.Toml.DateTime
import VariantGraph.Toml.Definition
import VariantGraph.Toml.Fields
import VariantGraph.Toml.Number
import VariantGraph.Toml.Reader
import VariantGraph.Toml.Text
import VariantGraph.Variant
import VariantGraph.Version
import VariantGraph.Version.Range
import VariantGraph.Version.Selector
import VariantGraph.VersionChoice
