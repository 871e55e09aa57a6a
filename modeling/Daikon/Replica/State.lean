/-
# Daikon.Replica.State -- a replica and its sync (`replication.rs`)

`ReplicationReplica` pulls entries from the master's log, carries them out on its store and appends
them to its own log. Its position is a count of entries, duplicates are recognised by their time
stamp, and both live in memory: a replica that is made anew takes the length of its own log for its
position and has seen no time stamp yet.

A sync sends a heartbeat, fetches up to a hundred entries from the position on, drops those whose time
stamp it has, and takes over the others one by one. It returns early at the first that is refused or
cannot be appended, and has kept what it did up to there: the store of the entries before, and that of
the entry itself where only the append failed, but not the new position.

The local log is a list of entries, as that of a server: an append that fails is taken to have written
nothing (`Daikon.Api.Server`). What the environment decides during a sync, the outcome of the two
requests to the master, the clock and the outcome of each append, is its `SyncIo`.
-/
import Daikon.Wal.Entry
import Mathlib.Data.Finset.Basic

namespace Daikon

/-- `ReplicationMaster::get_wal_entries`, for the limit a replica asks for (`getWalEntries_hundred`). -/
def getWalEntries (wal : List WalEntry) (fromIndex limit : Nat) : List WalEntry :=
  if fromIndex ≥ wal.length then [] else (wal.drop fromIndex).take limit

/-- A replica: the store and the local log that it shares with its own server, and what it remembers. -/
structure ReplicationReplica where
  store : KvStore
  wal : List WalEntry := []
  lastAppliedIndex : Nat := 0
  appliedEntryTimestamps : Finset Nat := ∅
  lastSuccessfulSyncUnixSecs : Option Nat := none
  lastSyncDurationMs : Option Nat := none
  lagEntries : Nat := 0
  /-- History, read by nothing: the entries carried out on the store, in order. -/
  carriedOut : List WalEntry := []

/-- What the environment decides during one sync. -/
structure SyncIo where
  /-- The error of the heartbeat and that of the fetch, if they fail. -/
  heartbeat : Option KvStoreError := none
  fetch : Option KvStoreError := none
  /-- The clock as the n-th entry of the answer is carried out. -/
  now : Nat → Nat := fun _ => 0
  /-- The error of appending the n-th entry to the local log, if it fails. -/
  disk : Nat → Option KvStoreError := fun _ => none
  finishedAt : Nat := 0
  durationMs : Nat := 0

namespace ReplicationReplica

/-- `ReplicationReplica::new` over a store and a local log. -/
def new (store : KvStore) (wal : List WalEntry) : ReplicationReplica :=
  { store, wal, lastAppliedIndex := wal.length }

/-- `apply_wal_entry`: the store first, then the local log. An append that fails is taken to have written
nothing. -/
def applyWalEntry (rt : Runtime) (now : Nat) (disk : Option KvStoreError) (r : ReplicationReplica)
    (entry : WalEntry) : Except KvStoreError Unit × ReplicationReplica :=
  match applyOperation rt now r.store entry.operation with
  | (.error e, store) => (.error e, { r with store })
  | (.ok (), store) =>
      let r := { r with store, carriedOut := r.carriedOut ++ [entry] }
      -- the store keeps the change when the append fails
      match disk with
      | some e => (.error e, r)
      | none => (.ok (), { r with wal := r.wal ++ [entry] })

/-- The time stamp joins those whose entries were carried out. -/
def remember (r : ReplicationReplica) (timestamp : Nat) : ReplicationReplica :=
  { r with appliedEntryTimestamps := insert timestamp r.appliedEntryTimestamps }

/-- The loop of `sync` from the n-th entry of the answer on, with the time stamps seen in this batch
and the number of entries applied. -/
def syncLoop (rt : Runtime) (io : SyncIo) : Nat → List WalEntry → Finset Nat → Nat →
    ReplicationReplica → Except KvStoreError Nat × ReplicationReplica
  | _, [], _, appliedCount, r => (.ok appliedCount, r)
  | n, entry :: entries, batchSeen, appliedCount, r =>
      if entry.timestamp ∈ batchSeen then
        syncLoop rt io (n + 1) entries batchSeen appliedCount r
      else
        let batchSeen := insert entry.timestamp batchSeen
        if entry.timestamp ∈ r.appliedEntryTimestamps then
          syncLoop rt io (n + 1) entries batchSeen appliedCount r
        else
          match r.applyWalEntry rt (io.now n) (io.disk n) entry with
          | (.error e, r) => (.error e, r)
          | (.ok (), r) =>
              syncLoop rt io (n + 1) entries batchSeen (appliedCount + 1) (r.remember entry.timestamp)

/-- The end of a sync that went through: the lag and the times. -/
def finish (r : ReplicationReplica) (io : SyncIo) (totalEntries : Nat) : ReplicationReplica :=
  { r with
    lagEntries := totalEntries - r.lastAppliedIndex
    lastSuccessfulSyncUnixSecs := some io.finishedAt
    lastSyncDurationMs := some io.durationMs }

/-- `sync` against a master whose log is `master`. -/
def sync (rt : Runtime) (r : ReplicationReplica) (io : SyncIo) (master : List WalEntry) :
    Except KvStoreError Nat × ReplicationReplica :=
  match io.heartbeat, io.fetch with
  | some e, _ => (.error e, r)
  | none, some e => (.error e, r)
  | none, none =>
      match getWalEntries master r.lastAppliedIndex 100 with
      -- nothing new: the lag and the times are noted all the same
      | [] => (.ok 0, r.finish io master.length)
      | entry :: entries =>
          match syncLoop rt io 0 (entry :: entries) ∅ 0 r with
          | (.error e, r) => (.error e, r)
          | (.ok appliedCount, r) =>
              let r := { r with lastAppliedIndex := r.lastAppliedIndex + appliedCount }
              (.ok appliedCount, r.finish io master.length)

end ReplicationReplica

end Daikon
