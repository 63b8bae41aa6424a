import EventSchema.Attribute
import EventSchema.Catalog.Detail
import EventSchema.Catalog.Error
import EventSchema.Catalog.Inclusion
import EventSchema.Catalog.Items
import EventSchema.Catalog.Reading
import EventSchema.CommandLine.Options
import EventSchema.CommandLine.Request
import EventSchema.CommandLine.Run
import EventSchema.Decimal.Binary64
import EventSchema.Decimal.Reading
import EventSchema.Decimal.Shortest
import EventSchema.Deferral
import EventSchema.Definition
import EventSchema.Digraph.Acyclicity
import EventSchema.Digraph.Basic
import EventSchema.Digraph.Components
import EventSchema.Entity
import EventSchema.Entries
import EventSchema.FileTree.Basic
import EventSchema.FileTree.Path
import EventSchema.Identifier
import EventSchema.Journal
import EventSchema.Json.Basic
import EventSchema.Json.Merge
import EventSchema.Json.Printer
import EventSchema.Json.Reader
import EventSchema.Main
import EventSchema.NameSet
import EventSchema.Package.EntityModule
import EventSchema.Package.EnumModel
import EventSchema.Package.Files
import EventSchema.Package.Linking
import EventSchema.Package.Placement
import EventSchema.Package.Plan
import EventSchema.Package.Queue
import EventSchema.Package.Source
import EventSchema.Payload.Check
import EventSchema.Payload.Event
import EventSchema.Payload.Model
import EventSchema.Payload.Prefill
import EventSchema.Payload.Sibling
import EventSchema.Proofs.Catalog.Ancestry
import EventSchema.Proofs.Catalog.Companions
import EventSchema.Proofs.Catalog.Details
import EventSchema.Proofs.Catalog.Enumerations
import EventSchema.Proofs.Catalog.Faults
import EventSchema.Proofs.Catalog.Folders
import EventSchema.Proofs.Catalog.Inclusion
import EventSchema.Proofs.Catalog.Inheritance
import EventSchema.Proofs.Catalog.InheritedDetails
import EventSchema.Proofs.Catalog.Items
import EventSchema.Proofs.Catalog.Keys
import EventSchema.Proofs.Catalog.Layers
import EventSchema.Proofs.Catalog.Lineages
import EventSchema.Proofs.Catalog.Reading
import EventSchema.Proofs.Catalog.Regrouping
import EventSchema.Proofs.Catalog.Reporting
import EventSchema.Proofs.Catalog.Steps
import EventSchema.Proofs.Computation
import EventSchema.Proofs.Deferral.Inside
import EventSchema.Proofs.Deferral.Links
import EventSchema.Proofs.Deferral.Objects
import EventSchema.Proofs.Deferral.Outcome
import EventSchema.Proofs.Deferral.TakingBack
import EventSchema.Proofs.Deferral.Uniqueness
import EventSchema.Proofs.Digraph.Acyclicity
import EventSchema.Proofs.Digraph.Classes
import EventSchema.Proofs.Digraph.Components
import EventSchema.Proofs.Digraph.Condensation
import EventSchema.Proofs.Digraph.Search
import EventSchema.Proofs.Digraph.Traversal
import EventSchema.Proofs.Digraph.Walks
import EventSchema.Proofs.Directories
import EventSchema.Proofs.FileTree.Files
import EventSchema.Proofs.FileTree.Operations
import EventSchema.Proofs.FileTree.Paths
import EventSchema.Proofs.FileTree.Trails
import EventSchema.Proofs.FileTree.View
import EventSchema.Proofs.Identifiers
import EventSchema.Proofs.Json.Documents
import EventSchema.Proofs.Json.MergedObjects
import EventSchema.Proofs.Json.Merging
import EventSchema.Proofs.MemberNames
import EventSchema.Proofs.MemberPattern
import EventSchema.Proofs.ModuleNames
import EventSchema.Proofs.Package.Activities
import EventSchema.Proofs.Package.Arrangement
import EventSchema.Proofs.Package.BindingRounds
import EventSchema.Proofs.Package.ClassUids
import EventSchema.Proofs.Package.Closure
import EventSchema.Proofs.Package.Contents
import EventSchema.Proofs.Package.DocBlocks
import EventSchema.Proofs.Package.Emission
import EventSchema.Proofs.Package.EscapedText
import EventSchema.Proofs.Package.FieldNames
import EventSchema.Proofs.Package.FilePaths
import EventSchema.Proofs.Package.FirstOrder
import EventSchema.Proofs.Package.FullNames
import EventSchema.Proofs.Package.Imports
import EventSchema.Proofs.Package.LateBinding
import EventSchema.Proofs.Package.LinkClosure
import EventSchema.Proofs.Package.Linking
import EventSchema.Proofs.Package.Members
import EventSchema.Proofs.Package.Naming
import EventSchema.Proofs.Package.Numbering
import EventSchema.Proofs.Package.Order
import EventSchema.Proofs.Package.Outcomes
import EventSchema.Proofs.Package.Placement
import EventSchema.Proofs.Package.Places
import EventSchema.Proofs.Package.Queue
import EventSchema.Proofs.Package.Reachability
import EventSchema.Proofs.Package.Rendering
import EventSchema.Proofs.Package.VersionPackages
import EventSchema.Proofs.Package.WrittenTexts
import EventSchema.Proofs.Package.Writing
import EventSchema.Proofs.Payload.Checking
import EventSchema.Proofs.Payload.Correction
import EventSchema.Proofs.Payload.Members
import EventSchema.Proofs.Payload.NumberOrLabel
import EventSchema.Proofs.Payload.Preparing
import EventSchema.Proofs.Payload.Reconciliation
import EventSchema.Proofs.Payload.Restoring
import EventSchema.Proofs.Payload.RoundTrip
import EventSchema.Proofs.Payload.Settling
import EventSchema.Proofs.Payload.Validation
import EventSchema.Proofs.Release.Compilation
import EventSchema.Proofs.Release.FailureOrder
import EventSchema.Proofs.Release.Fetching
import EventSchema.Proofs.Release.Generation
import EventSchema.Proofs.Release.Packages
import EventSchema.Proofs.Release.Retrieval
import EventSchema.Proofs.Release.Runs
import EventSchema.Proofs.Release.Staging
import EventSchema.Proofs.Release.Turns
import EventSchema.Proofs.Tables
import EventSchema.Proofs.Text.Filling
import EventSchema.Proofs.Text.Literals
import EventSchema.Proofs.Text.PieceLayout
import EventSchema.Proofs.Text.PieceReading
import EventSchema.Proofs.Text.Pieces
import EventSchema.Proofs.Text.WholePieces
import EventSchema.Proofs.Workspaces
import EventSchema.ReferenceGraph
import EventSchema.Release.Compilation
import EventSchema.Release.Generation
import EventSchema.Release.Retrieval
import EventSchema.ScalarType
import EventSchema.Shape
import EventSchema.Table
import EventSchema.Text.Blank
import EventSchema.Text.CaseMapping
import EventSchema.Text.CaseTables
import EventSchema.Text.CharacterNames
import EventSchema.Text.CharacterReference
import EventSchema.Text.Digit
import EventSchema.Text.LineEnd
import EventSchema.Text.Markup
import EventSchema.Text.PrintableTable
import EventSchema.Text.Quoted
import EventSchema.Text.Ranges
import EventSchema.Text.Wrap
import EventSchema.Workspace
