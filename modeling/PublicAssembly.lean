import PublicAssembly.Batch.Basic
import PublicAssembly.Batch.Inputs
import PublicAssembly.Batch.Publication
import PublicAssembly.Batch.Report
import PublicAssembly.Bytes.Basic
import PublicAssembly.Bytes.Cursor
import PublicAssembly.Bytes.Digest
import PublicAssembly.CommandLine.Arguments
import PublicAssembly.CommandLine.Program
import PublicAssembly.CommandLine.Plan
import PublicAssembly.Document.Basic
import PublicAssembly.Document.Module
import PublicAssembly.Document.OfJson
import PublicAssembly.Document.ToJson
import PublicAssembly.Files.Change
import PublicAssembly.Files.Tree
import PublicAssembly.Files.Path
import PublicAssembly.Format.Basic
import PublicAssembly.Image.Basic
import PublicAssembly.Image.Body
import PublicAssembly.Image.Fault
import PublicAssembly.Image.Load
import PublicAssembly.Image.Members
import PublicAssembly.Image.Nesting
import PublicAssembly.Image.Patch
import PublicAssembly.Image.Ranges
import PublicAssembly.Image.Sections
import PublicAssembly.Json.Basic
import PublicAssembly.Json.Decode
import PublicAssembly.Json.Reader
import PublicAssembly.Json.Token
import PublicAssembly.Json.Writer
import PublicAssembly.Log.Line
import PublicAssembly.Main
import PublicAssembly.Proofs.Module.Arena
import PublicAssembly.Proofs.Module.Trees
import PublicAssembly.Proofs.Reading
import PublicAssembly.Metadata.CodedIndex
import PublicAssembly.Metadata.Column
import PublicAssembly.Metadata.Layout
import PublicAssembly.Metadata.Root
import PublicAssembly.Metadata.Table
import PublicAssembly.Module.Basic
import PublicAssembly.Module.Forest
import PublicAssembly.Module.Sweep
import PublicAssembly.Module.Tree
import PublicAssembly.Output.Request
import PublicAssembly.Output.Target
import PublicAssembly.Promotion.Basic
import PublicAssembly.Promotion.Guard
import PublicAssembly.Run.Basic
import PublicAssembly.Run.Error
import PublicAssembly.Settings.Basic
import PublicAssembly.Settings.Toml
import PublicAssembly.Signature.Basic
import PublicAssembly.Signature.Decode
import PublicAssembly.Symbol.Member
import PublicAssembly.Symbol.TypeDecl
import PublicAssembly.Symbol.Visibility
import PublicAssembly.Text.Basic
import PublicAssembly.Text.Printable
import PublicAssembly.Text.Segments
import PublicAssembly.Text.Timestamp
import PublicAssembly.Toml.Build
import PublicAssembly.Toml.Basic
import PublicAssembly.Toml.Quoted
import PublicAssembly.Toml.Reader
import PublicAssembly.Toml.Scalar
import PublicAssembly.Toml.Writer
import PublicAssembly.Proofs.Promotion.Effect
import PublicAssembly.Proofs.Document.Promotion
import PublicAssembly.Proofs.Bytes.Agreement
import PublicAssembly.Proofs.Image.Changes
import PublicAssembly.Proofs.Metadata.Cells
import PublicAssembly.Proofs.Image.Cells
import PublicAssembly.Proofs.Image.Linking
import PublicAssembly.Proofs.Image.Nesting
import PublicAssembly.Proofs.Image.Unfolding
import PublicAssembly.Proofs.Image.Ranges
import PublicAssembly.Proofs.Image.Loading
import PublicAssembly.Proofs.Image.Writing
import PublicAssembly.Proofs.Image.Publishing
import PublicAssembly.Proofs.Image.Promotion
import PublicAssembly.Proofs.Image.Parts
import PublicAssembly.Proofs.Image.Alike
import PublicAssembly.Proofs.Image.Separation
import PublicAssembly.Proofs.Image.Rereading
import PublicAssembly.Proofs.Image.Reloading
import PublicAssembly.Proofs.Image.Frame
import PublicAssembly.Proofs.Image.Residue
import PublicAssembly.Proofs.Files.Following
import PublicAssembly.Proofs.Files.Directories
import PublicAssembly.Proofs.Files.Outputs
import PublicAssembly.Proofs.Output.Names
import PublicAssembly.Proofs.Running
import PublicAssembly.Proofs.Batch.Publication
import PublicAssembly.Proofs.Output.Containment
import PublicAssembly.Proofs.CommandLine.Suffix
import PublicAssembly.Proofs.Batch.Steps
import PublicAssembly.Proofs.Batch.Progress
import PublicAssembly.Proofs.Batch.Isolation
import PublicAssembly.Proofs.Batch.Failures
import PublicAssembly.Proofs.Batch.Bookkeeping
import PublicAssembly.Proofs.Batch.Harmless
import PublicAssembly.Proofs.Image.Unedited
import PublicAssembly.Proofs.Module.Reachable
import PublicAssembly.Proofs.Module.Listing
import PublicAssembly.Proofs.Module.PreOrder
import PublicAssembly.Proofs.Module.Renumbering
import PublicAssembly.Proofs.Image.Reconstruction
import PublicAssembly.Proofs.Document.RoundTrip
import PublicAssembly.Proofs.Document.Again
import PublicAssembly.Proofs.Document.Reading
import PublicAssembly.Proofs.Json.Depth
import PublicAssembly.Proofs.Json.RoundTrip
import PublicAssembly.Proofs.Promotion.Again
import PublicAssembly.Proofs.Machine.Basic
import PublicAssembly.Proofs.Machine.Bytes
import PublicAssembly.Proofs.Machine.Signature
import PublicAssembly.Proofs.Machine.Headers
import PublicAssembly.Proofs.Machine.Tables
import PublicAssembly.Proofs.Machine.Metadata
import PublicAssembly.Proofs.Machine.Members
import PublicAssembly.Proofs.Machine.Types
import PublicAssembly.Proofs.Machine.Load
import PublicAssembly.Proofs.Machine.Patch
import PublicAssembly.Proofs.Promotion.Orders
import PublicAssembly.Proofs.Image.Acceptance
import PublicAssembly.Proofs.Image.SharedBodies
import PublicAssembly.Proofs.Image.Ownership
import PublicAssembly.Proofs.Image.Accessors
import PublicAssembly.Proofs.Promotion.Listed
import PublicAssembly.Proofs.Promotion.Exact
import PublicAssembly.Proofs.Metadata.Placement
import PublicAssembly.Proofs.Signature.Syntax
import PublicAssembly.Proofs.Signature.Unambiguity
import PublicAssembly.Proofs.Signature.Completeness
import PublicAssembly.Proofs.Signature.Soundness
import PublicAssembly.Proofs.Output.Distinct
import PublicAssembly.Proofs.Output.Splitting
import PublicAssembly.Proofs.Files.Walking
import PublicAssembly.Proofs.Batch.Inputs
import PublicAssembly.Proofs.Metadata.StoredRoot
import PublicAssembly.Proofs.Bytes.Compressed
import PublicAssembly.Proofs.Metadata.Blobs
import PublicAssembly.Proofs.Metadata.CodedIndex
import PublicAssembly.Proofs.Signature.Trace
import PublicAssembly.Proofs.Signature.Calls
import PublicAssembly.Proofs.Document.Recursion
