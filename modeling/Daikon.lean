import Daikon.Lib.Run
import Daikon.Lib.KeyedLog
import Daikon.Lib.Lookup
import Daikon.Lib.Glob
import Daikon.Lib.Deque
import Daikon.Lib.Peaks
import Daikon.Lib.Loop
import Daikon.Lib.Recency
import Daikon.Store.Basic
import Daikon.Store.HyperLogLog
import Daikon.Store.Value
import Daikon.Store.KvStore
import Daikon.Store.Collections
import Daikon.Store.Decimal
import Daikon.Store.Write
import Daikon.Store.Refine
import Daikon.Store.Quiet
import Daikon.Wal.Entry
import Daikon.Wal.Interpret
import Daikon.Api.Server
import Daikon.Api.Handlers
import Daikon.Api.Batch
import Daikon.Api.Request
import Daikon.Api.Effects
import Daikon.Lib.JsonString
import Daikon.Store.Text
import Daikon.Recovery.Crash
import Daikon.Recovery.OnDisk
import Daikon.Recovery.Startup
import Daikon.Recovery.Interpreters
import Daikon.Lib.FirstBy
import Daikon.Replica.State
import Daikon.Replica.Sync
import Daikon.Replica.Replication
import Daikon.Lib.Overwrite
import Daikon.Store.Fields
import Daikon.Recovery.Repeat
import Daikon.Recovery.Restart
import Daikon.Api.Concurrent
import Daikon.Lib.Lines
import Daikon.Wal.Crypto
import Daikon.Wal.File
import Daikon.Wal.Torn
import Daikon.Wal.Interleaved
import Daikon.Replica.Overlap
import Daikon.Pitr.Snapshot
import Daikon.Pitr.Recover
import Daikon.Pitr.Restart
import Daikon.Pitr.Operational
import Daikon.Store.Abreast
import Daikon.Recovery.Transactions
import Daikon.Store.Evict
import Daikon.Store.Expiry
import Daikon.Recovery.Expiry
import Daikon.Store.Isolation
import Daikon.Store.Unchanged
import Daikon.Recovery.Coverage
import Daikon.Api.Pipeline
import Daikon.Recovery.FailedAppend
import Daikon.Lib.Weight
import Daikon.Store.Methods
import Daikon.Store.Queue
import Daikon.Store.Memory
import Daikon.Store.Accounting
import Daikon.Store.Touch
import Daikon.Store.Reached
import Daikon.Store.Listed
import Daikon.Store.Budget
import Daikon.Store.Events
import Daikon.Store.Mirror
import Daikon.Store.Exec
import Daikon.Store.Reads
import Daikon.Store.Glob
import Daikon.Store.Expired
import Daikon.Store.Agree
import Daikon.Store.Visibility
import Daikon.Store.Failure
import Daikon.Store.Deque
import Daikon.Store.Absent
import Daikon.Store.Victims
import Daikon.Store.Merge
import Daikon.Store.Registers
import Daikon.Store.Union
import Daikon.Api.Discard
import Daikon.Store.Json
import Daikon.Store.Serde
import Daikon.Store.File
import Daikon.Recovery.SaveLoad
import Daikon.Api.PubSub
import Daikon.Api.Reads
import Daikon.Replica.Master
import Daikon.Api.Routes
import Daikon.Api.Authorised
import Daikon.Store.Range
import Daikon.Store.Counters
import Daikon.Replica.Paging
import Daikon.Api.Subscriptions
import Daikon.Lib.Precede
import Daikon.Api.Broadcast
import Daikon.Api.Counting
import Daikon.Pitr.Cleanup
import Daikon.Pitr.Names
import Daikon.Store.Limits
import Daikon.Store.Stale
import Daikon.Store.Prefix
import Daikon.Store.Uses
import Daikon.Lib.Buffered
import Daikon.Store.Atomic
import Daikon.Lib.Leading
import Daikon.Store.Ranks
import Daikon.Lib.Base64
import Daikon.Wal.AtRest
import Daikon.Wal.Key
import Daikon.Lib.Dictionary
import Daikon.Store.Hashes
import Daikon.Store.KeyCount
import Daikon.Store.Emits
import Daikon.Api.Announced
import Daikon.Lib.BoundedFifo
import Daikon.Api.Mailboxes
import Daikon.Lib.Rotation
import Daikon.Store.Backups
import Daikon.Store.Plain
import Daikon.Cli.Main
import Daikon.Cli.Unreadable
import Daikon.Wal.Document
import Daikon.Replica.Wire
import Daikon.Lib.Reader
import Daikon.Replica.Catchup
import Daikon.Replica.Cluster
import Daikon.Replica.Table
import Daikon.Replica.Agreement
import Daikon.Lib.Unwinding
import Daikon.Store.Local
import Daikon.Lib.Program
import Daikon.Api.Script
import Daikon.Api.Local
import Daikon.Api.Noninterference
import Daikon.Recovery.Torn
import Daikon.Api.Ledger
import Daikon.Cli.Sessions
import Daikon.Api.Watch
import Daikon.Api.Parallel
import Daikon.Store.Unchanged
