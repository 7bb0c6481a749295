import FeedLedger.Text.Percent
import FeedLedger.Coercion
import FeedLedger.Schema
import FeedLedger.Record
import FeedLedger.Projection
import FeedLedger.Registry
import FeedLedger.Table.Catalog
import FeedLedger.IngestKey
import FeedLedger.Insert
import FeedLedger.Store.Offsets
import FeedLedger.Writer.Recorder
import FeedLedger.Isolation
import FeedLedger.Replay
import FeedLedger.Engine
import FeedLedger.Ledger.Call
import FeedLedger.WorkerPool
import FeedLedger.Http
import FeedLedger.Proofs.Chunk
import FeedLedger.Proofs.Handed
import FeedLedger.Proofs.Keyed
import FeedLedger.Proofs.Written
import FeedLedger.Proofs.Layout
import FeedLedger.Proofs.Refused
import FeedLedger.Proofs.Offset
import FeedLedger.Proofs.Attempt
import FeedLedger.Proofs.Atomicity
import FeedLedger.Proofs.Fitting
import FeedLedger.Proofs.Projected
import FeedLedger.Proofs.Given
import FeedLedger.Proofs.Numbered
import FeedLedger.Proofs.Settling
import FeedLedger.Proofs.Execution
import FeedLedger.Proofs.Builtin
import FeedLedger.Proofs.Reached
import FeedLedger.Proofs.Oversized
import FeedLedger.Proofs.Admission
import FeedLedger.Proofs.Aborts
import FeedLedger.Proofs.RowByRow
import FeedLedger.Proofs.Origin
import FeedLedger.Proofs.Carried
import FeedLedger.Proofs.Holding
import FeedLedger.Proofs.Delivery
import FeedLedger.Proofs.Kept
import FeedLedger.Proofs.Content
import FeedLedger.Proofs.Committed
import FeedLedger.Proofs.History
import FeedLedger.Proofs.LastOffset
import FeedLedger.Proofs.Lockstep
import FeedLedger.Proofs.LeftOut
import FeedLedger.Proofs.OffsetRange
import FeedLedger.Proofs.Paired
import FeedLedger.Proofs.Answers
import FeedLedger.Proofs.Redelivery
import FeedLedger.Proofs.FirstOrLast
import FeedLedger.Proofs.Appending
import FeedLedger.Proofs.Interleaved
import FeedLedger.Proofs.Instants
import FeedLedger.Proofs.Mirrored
import FeedLedger.Proofs.Uncommitted
import FeedLedger.Proofs.InTurn
import FeedLedger.Proofs.Spelling
import FeedLedger.Proofs.Ordinals
import FeedLedger.Proofs.Chunking
import FeedLedger.Proofs.Surface
import FeedLedger.Proofs.WrittenForm
import FeedLedger.Proofs.Epoch
import FeedLedger.Proofs.Integral
import FeedLedger.Proofs.Nearest
import FeedLedger.Proofs.Overflow
import FeedLedger.Proofs.Levels
import FeedLedger.Proofs.Integrity
import FeedLedger.Proofs.Constraints
import FeedLedger.Proofs.Statement
import FeedLedger.Proofs.Upsert
import FeedLedger.Proofs.PutBack
