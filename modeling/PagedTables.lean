import PagedTables.Session.Basic
import PagedTables.Proofs.Codec.Tuple
import PagedTables.Proofs.Codec.Bitmap
import PagedTables.Proofs.Codec.Layout
import PagedTables.Proofs.Codec.Page
import PagedTables.Proofs.Codec.Legible
import PagedTables.Proofs.Codec.Recode
import PagedTables.Proofs.Lock.Attempt
import PagedTables.Proofs.Lock.Sections
import PagedTables.Proofs.Lock.Deadlock
import PagedTables.Proofs.Lock.Quiescence
import PagedTables.Proofs.Lock.Hold
import PagedTables.Proofs.Lock.Retention
import PagedTables.Proofs.Codec.Marks
import PagedTables.Proofs.Storage.Line
import PagedTables.Proofs.Storage.Edit
import PagedTables.Proofs.Storage.RoundTrip
import PagedTables.Proofs.Storage.Canonical
import PagedTables.Proofs.Storage.File
import PagedTables.Proofs.Storage.Tally
import PagedTables.Proofs.Pool.Serve
import PagedTables.Proofs.Pool.Use
import PagedTables.Proofs.Pool.Steps
import PagedTables.Proofs.Pool.Flush
import PagedTables.Proofs.Pool.Sound
import PagedTables.Proofs.Pool.Balance
import PagedTables.Proofs.Pool.Move
import PagedTables.Proofs.Pool.Deed
import PagedTables.Proofs.Pool.Fresh
import PagedTables.Proofs.Workload.Run
import PagedTables.Proofs.Workload.Coherent
import PagedTables.Proofs.Workload.Step
import PagedTables.Proofs.Workload.Use
import PagedTables.Proofs.Workload.Advance
import PagedTables.Proofs.Workload.Actions
import PagedTables.Proofs.Workload.Durable
import PagedTables.Proofs.Workload.Isolation
import PagedTables.Proofs.Workload.Course
import PagedTables.Proofs.Workload.Ownership
import PagedTables.Proofs.Workload.Freshness
import PagedTables.Proofs.Pool.Alike
import PagedTables.Proofs.Pool.Alone
import PagedTables.Proofs.Sequence.Alone
import PagedTables.Proofs.Sequence.Operation
import PagedTables.Proofs.Sequence.Transparent
import PagedTables.Proofs.Pool.Stable
import PagedTables.Proofs.Workload.Reading
import PagedTables.Proofs.Workload.Scanning
import PagedTables.Proofs.Workload.Extent
import PagedTables.Proofs.Workload.Repeat
import PagedTables.Proofs.Pool.Tally
import PagedTables.Proofs.Workload.Users
import PagedTables.Proofs.Workload.Residence
import PagedTables.Proofs.Storage.LoadOrder
import PagedTables.Proofs.Sequence.Upkeep
import PagedTables.Proofs.Lock.Release
import PagedTables.Proofs.Pool.Completion
import PagedTables.Proofs.Workload.Settlement
import PagedTables.Proofs.Pool.Intact
import PagedTables.Proofs.Pool.Placement
import PagedTables.Proofs.Sequence.Insertion
import PagedTables.Proofs.Sequence.Failure
import PagedTables.Proofs.Lock.Decision
import PagedTables.Proofs.Lock.Search
import PagedTables.Proofs.Storage.Writing
import PagedTables.Proofs.Sequence.Eviction
import PagedTables.Proofs.Workload.Iteration
import PagedTables.Proofs.Sequence.Iteration
import PagedTables.Proofs.Storage.SlotMap
import PagedTables.Proofs.Storage.PageCount
import PagedTables.Proofs.Pool.Registration
import PagedTables.Proofs.Storage.Image
import PagedTables.Proofs.Pool.Cleaning
import PagedTables.Proofs.Workload.Handling
import PagedTables.Proofs.Sequence.Books
import PagedTables.Proofs.Sequence.Counters
import PagedTables.Proofs.Codec.Lossless
import PagedTables.Proofs.Codec.Geometry
