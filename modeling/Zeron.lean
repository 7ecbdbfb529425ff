import Zeron.Data.Lww
import Zeron.Data.Ranked
import Zeron.Data.KeyedFold
import Zeron.Data.KeyedTable
import Zeron.Data.Json
import Zeron.Data.Reorder
import Zeron.Registry.Hlc
import Zeron.Registry.Row
import Zeron.Registry.Merge
import Zeron.Registry.Coalesce
import Zeron.Edge.Core
import Zeron.Registry.Doc
import Zeron.Registry.Compaction
import Zeron.Registry.QueueMeaning
import Zeron.Registry.Entities
import Zeron.Registry.Api
import Zeron.Registry.Sidebar
import Zeron.Registry.Convergence
import Zeron.Registry.Redelivery
import Zeron.Registry.Queue
import Zeron.Registry.Recovery
import Zeron.Registry.Accounted
import Zeron.Registry.Reseed
import Zeron.Registry.Deletes
import Zeron.Registry.Stamps
import Zeron.Registry.OrderKeys
import Zeron.Registry.SidebarSteps
import Zeron.Registry.Pins
import Zeron.Edge.Notify
import Zeron.Edge.Room
import Zeron.Edge.Push
import Zeron.Edge.ClockOrder
import Zeron.Edge.Agreement
import Zeron.Edge.Batches
import Zeron.Sync.System
import Zeron.Sync.Cursor
import Zeron.Sync.Reset
import Zeron.Sync.Outbound
import Zeron.Sync.Purge
import Zeron.Data.Runs
import Zeron.Chat.Log
import Zeron.Chat.Room
import Zeron.Chat.Client
import Zeron.Chat.System
import Zeron.Chat.Honesty
import Zeron.Chat.Cursor
import Zeron.Chat.CursorRuns
import Zeron.Transcript.Message
import Zeron.Transcript.Delta
import Zeron.Transcript.Order
import Zeron.Transcript.Content
import Zeron.Command.Evaluate
import Zeron.Command.Host
import Zeron.Data.Claims
import Zeron.Command.Once
import Zeron.Command.Outcomes
import Zeron.Data.Lines
import Zeron.Journal.RunJournal
import Zeron.Journal.Tail
import Zeron.Journal.Durable
import Zeron.Preview.Labels
import Zeron.Preview.Discovery
import Zeron.Preview.Catalog
import Zeron.Preview.Steps
import Zeron.Preview.Hostnames
import Zeron.Preview.Traces
import Zeron.Preview.Identity
import Zeron.Preview.Durable
import Zeron.Device.Nudges
import Zeron.Device.Room
import Zeron.Device.Receipts
import Zeron.Device.Triggers
import Zeron.Chat.Checkpoint
import Zeron.Command.Retry
import Zeron.Data.Utf8
import Zeron.Git.Status
import Zeron.Data.Groups
import Zeron.Git.Readers
import Zeron.Git.Agreement
import Zeron.Rpc.Frames
import Zeron.Rpc.Connection
import Zeron.Rpc.Replies
import Zeron.Rpc.Faithful
import Zeron.Rpc.Closing
import Zeron.Transcript.Tracker
import Zeron.Transcript.Groups
import Zeron.Transcript.Slots
import Zeron.Transcript.Rejoin
import Zeron.Transcript.Hints
import Zeron.Transcript.Mirror
import Zeron.Transcript.Watch
import Zeron.Diff.Engine
import Zeron.Diff.Tasks
import Zeron.Diff.Kicks
import Zeron.Diff.Channels
import Zeron.Diff.Sidecars
import Zeron.Diff.Deliveries
import Zeron.Diff.Served
import Zeron.Diff.Turns
import Zeron.FsWatch.Cover
import Zeron.FsWatch.Reconcile
import Zeron.FsWatch.Passes
import Zeron.FsWatch.Gaps
import Zeron.FsWatch.Hub
import Zeron.Doc.Schema
import Zeron.Doc.Salvage
import Zeron.Doc.Joined
import Zeron.Doc.Opening
import Zeron.Doc.Fold
import Zeron.Doc.Writer
import Zeron.Doc.Streamed
import Zeron.Room.Backup
import Zeron.Account.Session
import Zeron.Account.Ledger
import Zeron.Account.Rotation
import Zeron.Account.Accounts
import Zeron.Peer.Links
import Zeron.Device.Frames
import Zeron.Device.Relay
import Zeron.Device.Handover
import Zeron.Data.Offsets
import Zeron.Transcript.Baseline
import Zeron.Doc.Growth
import Zeron.Data.Packing
import Zeron.Doc.Split
import Zeron.Data.ByteOrder
import Zeron.Edge.DeviceClock
import Zeron.Sync.Jobs
import Zeron.Chat.Persistence
import Zeron.Sync.Snapshots
import Zeron.Doc.Queue
import Zeron.Data.Slots
import Zeron.Room.Fragments
import Zeron.Data.Patches
import Zeron.Workspace.Paths
import Zeron.Workspace.Watch
import Zeron.Workspace.Words
import Zeron.Workspace.Burst
import Zeron.Data.Splits
import Zeron.Room.Replays
import Zeron.Mux.Streams
import Zeron.Mux.Link
import Zeron.Mux.Queues
import Zeron.Workspace.Texts
import Zeron.Data.Smallest
import Zeron.Workspace.Search
import Zeron.Data.Utf16
import Zeron.Edge.Messages
import Zeron.Uploads.Staging
import Zeron.Uploads.Refs
import Zeron.Data.Needle
import Zeron.Data.Trim
import Zeron.Client.Attachments
import Zeron.Client.Trailer
import Zeron.Harness.Events
import Zeron.Harness.Claude
import Zeron.Harness.Identity
import Zeron.Harness.Codex
import Zeron.Harness.Child
import Zeron.Harness.Redact
import Zeron.Harness.Redacted
import Zeron.Harness.Labelled
import Zeron.Harness.Hidden
import Zeron.Data.JsonValue
import Zeron.Data.JsonText
import Zeron.Data.JsonRead
import Zeron.Data.Ascii
import Zeron.Data.Utf8Text
import Zeron.Frames.Codec
import Zeron.Frames.OneFormat
import Zeron.Room.UpdateLog
import Zeron.ChangeRequests.Leases
import Zeron.Text.Spans
import Zeron.Text.Normalize
import Zeron.Journal.Backwards
import Zeron.Terminals.Live
import Zeron.Terminals.Delivery
import Zeron.Markdown.Tree
import Zeron.Markdown.Runs
import Zeron.Markdown.Inline
import Zeron.Markdown.Blocks
import Zeron.Markdown.Content
import Zeron.Markdown.Tight
