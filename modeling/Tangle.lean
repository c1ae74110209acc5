import Tangle.Chunk.Basic
import Tangle.Chunk.Key
import Tangle.Chunk.Name
import Tangle.Chunk.Occurrence
import Tangle.Command.Arguments
import Tangle.Command.Run
import Tangle.Config.Basic
import Tangle.Config.Comment
import Tangle.Config.Files
import Tangle.Config.Language
import Tangle.Config.Markers
import Tangle.Config.Reading
import Tangle.Config.Writing
import Tangle.Disk.Basic
import Tangle.Disk.Fault
import Tangle.Disk.Search
import Tangle.Disk.Writing
import Tangle.Document
import Tangle.Error
import Tangle.Event
import Tangle.Event.Filter
import Tangle.Expansion.Basic
import Tangle.Expansion.Trail
import Tangle.Expansion.Unfolding
import Tangle.Glob.Pattern
import Tangle.Hook
import Tangle.Library
import Tangle.Line.Bracketed
import Tangle.Line.Directive
import Tangle.Line.Reference
import Tangle.Location
import Tangle.Main
import Tangle.Path.Ancestors
import Tangle.Path.Basic
import Tangle.Plan
import Tangle.References.Json
import Tangle.References.Links
import Tangle.References.Tree
import Tangle.Report
import Tangle.Session
import Tangle.Store
import Tangle.Text.Blank
import Tangle.Text.Bytes
import Tangle.Text.Digit
import Tangle.Text.Expression
import Tangle.Text.Letter
import Tangle.Text.Lines
import Tangle.Text.Printable
import Tangle.Text.Quoted
import Tangle.Text.Split
import Tangle.Toml.Literal
import Tangle.Toml.Printer
import Tangle.Toml.Scalar
import Tangle.Toml.Statement
import Tangle.Toml.Value
import Tangle.Workspace
import Tangle.Proofs.Registries
import Tangle.Proofs.Circles
import Tangle.Proofs.Blocks
import Tangle.Proofs.Layout
import Tangle.Proofs.Outputs
import Tangle.Proofs.Planned
import Tangle.Proofs.Annotations
import Tangle.Proofs.Operations
import Tangle.Proofs.Linking
import Tangle.Proofs.Trees
import Tangle.Proofs.EitherOrder
import Tangle.Proofs.Components
import Tangle.Proofs.Targets
import Tangle.Proofs.Places
import Tangle.Proofs.Performing
import Tangle.Proofs.Quotation
import Tangle.Proofs.Statements
import Tangle.Proofs.Tables
import Tangle.Proofs.RoundTrip
import Tangle.Proofs.Forms
import Tangle.Proofs.Spelling
import Tangle.Proofs.Sorted
import Tangle.Proofs.Relative
import Tangle.Proofs.Selection
import Tangle.Proofs.Renumbering
import Tangle.Proofs.Prose
import Tangle.Proofs.Gathering
import Tangle.Proofs.Shebangs
import Tangle.Proofs.Numbering
import Tangle.Proofs.Anchors
import Tangle.Proofs.Notices
import Tangle.Proofs.Confinement
import Tangle.Proofs.Locality
import Tangle.Proofs.Relinking
import Tangle.Proofs.Branches
import Tangle.Proofs.Nesting
import Tangle.Proofs.Sharing
import Tangle.Proofs.Gluing
import Tangle.Proofs.Printing
import Tangle.Proofs.Pushing
import Tangle.Proofs.Parents
import Tangle.Proofs.Nearest
