import ChannelDirectory.Attributes
import ChannelDirectory.Batch
import ChannelDirectory.Channels
import ChannelDirectory.Collection
import ChannelDirectory.CommandLine.Arguments
import ChannelDirectory.CommandLine.Folder
import ChannelDirectory.CommandLine.Run
import ChannelDirectory.Config
import ChannelDirectory.Config.Reader
import ChannelDirectory.Decimal.Binary64
import ChannelDirectory.Decimal.Shortest
import ChannelDirectory.Directory
import ChannelDirectory.Error
import ChannelDirectory.Interference
import ChannelDirectory.Json
import ChannelDirectory.Json.Number
import ChannelDirectory.Json.Printer
import ChannelDirectory.Json.Reader
import ChannelDirectory.Json.SameValue
import ChannelDirectory.KeyMap
import ChannelDirectory.Listing
import ChannelDirectory.Main
import ChannelDirectory.Membership.Attribute
import ChannelDirectory.Membership.Delta
import ChannelDirectory.Membership.Edits
import ChannelDirectory.Pattern
import ChannelDirectory.Pattern.Matching
import ChannelDirectory.Program
import ChannelDirectory.Query.Codec
import ChannelDirectory.Query.Compile
import ChannelDirectory.Query.Evaluate
import ChannelDirectory.Query.Params
import ChannelDirectory.Query.Predicate
import ChannelDirectory.Record
import ChannelDirectory.Record.Codec
import ChannelDirectory.Record.Validation
import ChannelDirectory.Scroll
import ChannelDirectory.Store
import ChannelDirectory.Store.Backend
import ChannelDirectory.Store.Search
import ChannelDirectory.Store.Snapshot
import ChannelDirectory.Text.Blank
import ChannelDirectory.Text.CaseFold
import ChannelDirectory.Text.FormEncoding
import ChannelDirectory.Text.Quoted
import ChannelDirectory.Text.Split
import ChannelDirectory.Text.Utf8
import ChannelDirectory.Text.Visible
import ChannelDirectory.Yaml.Character
import ChannelDirectory.Yaml.Node
import ChannelDirectory.Yaml.Node.Reader
import ChannelDirectory.Yaml.Scalar
import ChannelDirectory.Yaml.Scalar.Block
import ChannelDirectory.Yaml.Scalar.Plain
import ChannelDirectory.Yaml.Scalar.Quoted
import ChannelDirectory.Yaml.Tag
import ChannelDirectory.Yaml.Token
import ChannelDirectory.Yaml.Token.Reader
import ChannelDirectory.Proofs.KeyMap
import ChannelDirectory.Proofs.Program.Reads
import ChannelDirectory.Proofs.Store.Cursors
import ChannelDirectory.Proofs.Program.Interleaving
import ChannelDirectory.Proofs.Record.References
import ChannelDirectory.Proofs.Record.RoundTrip
import ChannelDirectory.Proofs.Store.Contents
import ChannelDirectory.Proofs.Collection.Reads
import ChannelDirectory.Proofs.Collection.Pages
import ChannelDirectory.Proofs.Membership.RefEdit
import ChannelDirectory.Proofs.Membership.Delta
import ChannelDirectory.Proofs.Membership.LawfulAttribute
import ChannelDirectory.Proofs.Membership.Staging
import ChannelDirectory.Proofs.Membership.EditWrites
import ChannelDirectory.Proofs.Program.Writes
import ChannelDirectory.Proofs.Directory.Membership
import ChannelDirectory.Proofs.Directory.EditWrites
import ChannelDirectory.Proofs.Directory.AttributePlans
import ChannelDirectory.Proofs.Directory.AttributeEffects
import ChannelDirectory.Proofs.Directory.BatchEffects
import ChannelDirectory.Proofs.Directory.Replacement
import ChannelDirectory.Proofs.Directory.Updating
import ChannelDirectory.Proofs.Directory.Preparation
import ChannelDirectory.Proofs.Directory.ChannelWrites
import ChannelDirectory.Proofs.Directory.Syncing
import ChannelDirectory.Proofs.Record.Merge
import ChannelDirectory.Proofs.Directory.Merging
import ChannelDirectory.Proofs.Pattern.Matching
import ChannelDirectory.Proofs.Pattern.Meaning
import ChannelDirectory.Proofs.Query.Evaluation
import ChannelDirectory.Proofs.Query.Meaning
import ChannelDirectory.Proofs.Store.Batches
import ChannelDirectory.Proofs.Program.Endings
import ChannelDirectory.Proofs.Directory.Members
import ChannelDirectory.Proofs.Directory.Plans
import ChannelDirectory.Proofs.Directory.PlanEndings
import ChannelDirectory.Proofs.Directory.Commands
import ChannelDirectory.Proofs.Directory.Integrity
import ChannelDirectory.Proofs.Directory.FailedWrites
import ChannelDirectory.Proofs.Directory.Batches
import ChannelDirectory.Proofs.Membership.Changes
import ChannelDirectory.Proofs.Membership.Composition
import ChannelDirectory.Proofs.Directory.Grouping
import ChannelDirectory.Proofs.Membership.Restriction
import ChannelDirectory.Proofs.Program.Interference
import ChannelDirectory.Proofs.Directory.Restriction
import ChannelDirectory.Proofs.Directory.Interruption
import ChannelDirectory.Proofs.Directory.Scrolling
import ChannelDirectory.Proofs.Directory.Reading
import ChannelDirectory.Proofs.Program.Calls
import ChannelDirectory.Proofs.Record.Naming
import ChannelDirectory.Proofs.Collection.Progress
import ChannelDirectory.Proofs.Store.Matching
import ChannelDirectory.Proofs.Directory.Selection
import ChannelDirectory.Proofs.Directory.Counting
import ChannelDirectory.Proofs.Directory.Paging
import ChannelDirectory.Proofs.Query.Collecting
import ChannelDirectory.Proofs.Query.Spelling
import ChannelDirectory.Proofs.Program.Regime
import ChannelDirectory.Proofs.Directory.Conduct
import ChannelDirectory.Proofs.Directory.Shape
import ChannelDirectory.Proofs.Directory.Window
import ChannelDirectory.Proofs.Query.Partition
import ChannelDirectory.Proofs.Program.Replacing
import ChannelDirectory.Proofs.Directory.Standing
import ChannelDirectory.Proofs.Program.Resubmission
import ChannelDirectory.Proofs.Program.Agreement
import ChannelDirectory.Proofs.Directory.Agreement
import ChannelDirectory.Proofs.Directory.OneRecord
import ChannelDirectory.Proofs.Directory.Independence
import ChannelDirectory.Proofs.Directory.Resubmission
import ChannelDirectory.Proofs.Directory.ChannelResubmission
import ChannelDirectory.Proofs.Directory.OpenCursors
import ChannelDirectory.Proofs.Directory.Totals
import ChannelDirectory.Proofs.Pattern.Expression
import ChannelDirectory.Proofs.Pattern.Reading
import ChannelDirectory.Proofs.Query.PagingKeys
import ChannelDirectory.Proofs.Pattern.Display
import ChannelDirectory.Proofs.Pattern.Recognition
import ChannelDirectory.Proofs.Pattern.Arrangement
import ChannelDirectory.Proofs.Pattern.SameTexts
import ChannelDirectory.Proofs.Query.Escaping
import ChannelDirectory.Proofs.Directory.Additions
import ChannelDirectory.Proofs.Directory.Assignments
import ChannelDirectory.Proofs.Store.Reordering
import ChannelDirectory.Proofs.Program.WritingOnce
import ChannelDirectory.Proofs.Directory.OneBatch
import ChannelDirectory.Proofs.Record.Validity
import ChannelDirectory.Proofs.Directory.Acceptance
import ChannelDirectory.Proofs.Program.BatchReports
import ChannelDirectory.Proofs.Text.Utf8
import ChannelDirectory.Proofs.Query.FormEncoding
import ChannelDirectory.Proofs.Record.Layout
import ChannelDirectory.Proofs.Collection.Rereading
import ChannelDirectory.Proofs.Json.Strings
import ChannelDirectory.Proofs.Json.Numbers
import ChannelDirectory.Proofs.Json.Legible
import ChannelDirectory.Proofs.Json.RoundTrip
import ChannelDirectory.Proofs.Store.Snapshots
import ChannelDirectory.Proofs.CommandLine.Files
import ChannelDirectory.Proofs.Directory.Printing
import ChannelDirectory.Proofs.Record.Printing
import ChannelDirectory.Proofs.CommandLine.Saving
import ChannelDirectory.Proofs.Query.History
import ChannelDirectory.Proofs.Membership.ExactDeltas
import ChannelDirectory.Proofs.Membership.Refreshing
import ChannelDirectory.Proofs.Membership.CollectedCalls
import ChannelDirectory.Proofs.Pattern.NormalForm
import ChannelDirectory.Proofs.Record.MergeLaws
