import PassTrace.Text.Word
import PassTrace.Text.Printable
import PassTrace.Text.Digit
import PassTrace.Text.Blank
import PassTrace.Text.Line
import PassTrace.Text.Quoted
import PassTrace.Text.Utf8
import PassTrace.Number.Decimal
import PassTrace.Json.Literal
import PassTrace.Json.Parser
import PassTrace.Json.Printer
import PassTrace.Json.Writable
import PassTrace.Text.Encoding
import PassTrace.Codec.Base64
import PassTrace.Codec.Sha256
import PassTrace.Codec.Inflate
import PassTrace.Codec.Gzip
import PassTrace.Trace.Parser
import PassTrace.Snapshot.Resolver
import PassTrace.Ir.Counting
import PassTrace.Ir.DebugInfo
import PassTrace.Ir.Layout
import PassTrace.Ir.LineChange
import PassTrace.Group
import PassTrace.Navigation
import PassTrace.Diff.Unified
import PassTrace.Calendar
import PassTrace.Config
import PassTrace.Files.Tree
import PassTrace.Notice
import PassTrace.World
import PassTrace.View
import PassTrace.Batch
import PassTrace.Session.Encode
import PassTrace.Session.Decode
import PassTrace.Session.File
import PassTrace.Job
import PassTrace.Report
import PassTrace.Store.Basic
import PassTrace.CommandLine.Run
import PassTrace.Main
import PassTrace.Proofs.Snapshot.Memory
import PassTrace.Proofs.Trace.Reading
import PassTrace.Proofs.Reads
import PassTrace.Proofs.Text.Utf8
import PassTrace.Proofs.Codec.Base64
import PassTrace.Proofs.Json.RoundTrip
import PassTrace.Proofs.Codec.Stored
import PassTrace.Proofs.Session.Texts
import PassTrace.Proofs.Session.Passes
import PassTrace.Proofs.Json.Limits
import PassTrace.Proofs.Session.RoundTrip
import PassTrace.Proofs.World
import PassTrace.Proofs.Inspector.Loading
import PassTrace.Proofs.Group.Segments
import PassTrace.Proofs.Group.FirstFit
import PassTrace.Proofs.Group.Grouping
import PassTrace.Proofs.Snapshot.References
import PassTrace.Proofs.View
import PassTrace.Proofs.Snapshot.Continuity
import PassTrace.Proofs.Trace.Timeline
import PassTrace.Proofs.Reporting
import PassTrace.Proofs.Session.Parts
import PassTrace.Proofs.Session.Entries
import PassTrace.Proofs.Session.Escapes
import PassTrace.Proofs.Session.Meaning
import PassTrace.Proofs.Diff.Agreement
import PassTrace.Proofs.Session.Unchanged
import PassTrace.Proofs.Session.Table
import PassTrace.Proofs.Session.Canonical
import PassTrace.Proofs.View.Bare
import PassTrace.Proofs.Batch.Calls
import PassTrace.Proofs.Batch.Filling
import PassTrace.Proofs.Batch.Stored
import PassTrace.Proofs.Batch.Office
import PassTrace.Proofs.Inspector.Jobs
import PassTrace.Proofs.Batch.Independence
import PassTrace.Proofs.Inspector.Answers
import PassTrace.Proofs.Json.Document
import PassTrace.Proofs.Codec.Gzip
import PassTrace.Proofs.Files.Changes
import PassTrace.Proofs.Files.Paths
import PassTrace.Proofs.Session.Files
import PassTrace.Proofs.Store.Listing
import PassTrace.Proofs.Store.Drafts
import PassTrace.Proofs.Store.Keeping
import PassTrace.Proofs.Store.Calls
import PassTrace.Proofs.Store.Visits
import PassTrace.Proofs.Store.History
import PassTrace.Proofs.Store.Answers
import PassTrace.Proofs.Store.Latest
import PassTrace.Proofs.Codec.Lengths
import PassTrace.Proofs.Ir.Definitions
import PassTrace.Proofs.Diff.Patch
import PassTrace.Proofs.Trace.Markers
import PassTrace.Proofs.Ir.Bodies
import PassTrace.Proofs.Ir.Names
import PassTrace.Proofs.Session.Fields
import PassTrace.Proofs.Session.Derived
import PassTrace.Proofs.Ir.Distance
import PassTrace.Proofs.Trace.Files
import PassTrace.Proofs.Session.Offsets
import PassTrace.Proofs.Files.Soundness
import PassTrace.Proofs.Inspector.Saving
import PassTrace.Proofs.Inspector.Drift
import PassTrace.Proofs.Navigation
import PassTrace.Proofs.Group.Folding
import PassTrace.Proofs.Store.Order
import PassTrace.Proofs.Store.Regular
import PassTrace.Proofs.Store.Overall
import PassTrace.Proofs.Store.Sorting
import PassTrace.Proofs.Store.Malformed
import PassTrace.Proofs.Ir.Layout
import PassTrace.Proofs.Snapshot.Chains
import PassTrace.Proofs.Store.Failing
