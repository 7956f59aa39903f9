import CwlDescriptor.Analysis
import CwlDescriptor.CommandLine.Arguments
import CwlDescriptor.CommandLine.Run
import CwlDescriptor.Configuration
import CwlDescriptor.Dag.Basic
import CwlDescriptor.Dag.Dot
import CwlDescriptor.Document.Entries
import CwlDescriptor.Document.ListForm
import CwlDescriptor.Document.Moment
import CwlDescriptor.Document.Node
import CwlDescriptor.Document.SetOrder
import CwlDescriptor.Document.Shown
import CwlDescriptor.Entry
import CwlDescriptor.Error
import CwlDescriptor.Expansion.Basic
import CwlDescriptor.Expansion.Expand
import CwlDescriptor.Files.Repository
import CwlDescriptor.Files.Tree
import CwlDescriptor.Image.Link
import CwlDescriptor.Image.Registry
import CwlDescriptor.Image.Specifier
import CwlDescriptor.Imports
import CwlDescriptor.Json
import CwlDescriptor.Json.Reading
import CwlDescriptor.Load
import CwlDescriptor.Main
import CwlDescriptor.Metadata
import CwlDescriptor.Number.Binary64
import CwlDescriptor.Number.FloatText
import CwlDescriptor.Number.IntegerText
import CwlDescriptor.Number.Shortest
import CwlDescriptor.Path
import CwlDescriptor.Reference
import CwlDescriptor.SourceStore
import CwlDescriptor.Table
import CwlDescriptor.Text.Base64
import CwlDescriptor.Text.Blank
import CwlDescriptor.Text.Cut
import CwlDescriptor.Text.Digit
import CwlDescriptor.Text.Half
import CwlDescriptor.Text.Order
import CwlDescriptor.Text.Printable
import CwlDescriptor.Text.Quoted
import CwlDescriptor.Text.Utf8
import CwlDescriptor.Validation
import CwlDescriptor.Workflow.Requirement
import CwlDescriptor.Workflow.Step
import CwlDescriptor.Workflow.ToolTable
import CwlDescriptor.Workflow.Walk
import CwlDescriptor.Yaml.Construction
import CwlDescriptor.Yaml.Cursor
import CwlDescriptor.Yaml.Event
import CwlDescriptor.Yaml.Tag
import CwlDescriptor.Yaml.Token
import CwlDescriptor.Yaml.Token.Block
import CwlDescriptor.Yaml.Token.Lexer
import CwlDescriptor.Yaml.Token.Plain
import CwlDescriptor.Yaml.Token.Property
import CwlDescriptor.Yaml.Token.Quoted
import CwlDescriptor.Yaml.Tree
import CwlDescriptor.Yaml.Value
import CwlDescriptor.Proofs.Computation
import CwlDescriptor.Proofs.Expansion.Contract
import CwlDescriptor.Proofs.Expansion.Coupling
import CwlDescriptor.Proofs.Entries
import CwlDescriptor.Proofs.Expansion.Simulation
import CwlDescriptor.Proofs.Termination
import CwlDescriptor.Proofs.Expansion.Derivation
import CwlDescriptor.Proofs.Size
import CwlDescriptor.Proofs.Expansion.History
import CwlDescriptor.Proofs.Marks
import CwlDescriptor.Proofs.Provenance
import CwlDescriptor.Proofs.Transparency
import CwlDescriptor.Proofs.Counters
import CwlDescriptor.Proofs.Failures
import CwlDescriptor.Proofs.Cycles
import CwlDescriptor.Proofs.Limits
import CwlDescriptor.Proofs.Discovery
import CwlDescriptor.Proofs.Expansion.Settled
import CwlDescriptor.Proofs.Idempotence
import CwlDescriptor.Proofs.Distinctness
import CwlDescriptor.Proofs.Mixins
import CwlDescriptor.Proofs.Expansion.Pursuits
import CwlDescriptor.Proofs.Expansion.References
import CwlDescriptor.Proofs.Coverage
import CwlDescriptor.Proofs.Workflow.Outcome
import CwlDescriptor.Proofs.Workflow.Steps
import CwlDescriptor.Proofs.Workflow.Visits
import CwlDescriptor.Proofs.Workflow.Trails
import CwlDescriptor.Proofs.Workflow.Recording
import CwlDescriptor.Proofs.Workflow.Composition
import CwlDescriptor.Proofs.Workflow.Inheritance
import CwlDescriptor.Proofs.Dag.Edges
import CwlDescriptor.Proofs.Dag.Stitching
import CwlDescriptor.Proofs.Dag.Paths
import CwlDescriptor.Proofs.Dag.Sources
import CwlDescriptor.Proofs.Dag.Nodes
import CwlDescriptor.Proofs.Workflow.Encodings
import CwlDescriptor.Proofs.Workflow.Recoding
import CwlDescriptor.Proofs.Outcomes
import CwlDescriptor.Proofs.Locality
import CwlDescriptor.Proofs.Validity
import CwlDescriptor.Proofs.Reports
import CwlDescriptor.Proofs.Yaml.Composer
import CwlDescriptor.Proofs.Standalone
import CwlDescriptor.Proofs.Chains
import CwlDescriptor.Proofs.Runs
import CwlDescriptor.Proofs.Numerals
import CwlDescriptor.Proofs.Yaml.Conversions
import CwlDescriptor.Proofs.Yaml.Lexing
import CwlDescriptor.Proofs.Yaml.Construction
import CwlDescriptor.Proofs.Yaml.Parsing
import CwlDescriptor.Proofs.Yaml.Loading
import CwlDescriptor.Proofs.Cuts
import CwlDescriptor.Proofs.Image.Versions
import CwlDescriptor.Proofs.Image.Hosts
import CwlDescriptor.Proofs.Image.Links
import CwlDescriptor.Proofs.Addresses
import CwlDescriptor.Proofs.Workflow.Lookups
import CwlDescriptor.Proofs.Workflow.ToolRows
import CwlDescriptor.Proofs.Dot.Reading
import CwlDescriptor.Proofs.Dot.Identifiers
import CwlDescriptor.Proofs.Dot.Drawing
import CwlDescriptor.Proofs.Dag.Elements
import CwlDescriptor.Proofs.Yaml.Untagged
import CwlDescriptor.Proofs.Resolution
import CwlDescriptor.Proofs.Stores
