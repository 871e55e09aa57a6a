/-
# Daikon.Pitr.Operational -- the store that a recovery leaves in place

A recovered store is read back from a snapshot, or new. What serde skips comes back with its default: the
configuration, the recency list, the queue of an open transaction and the pending events. `load_from_file`
makes up for that at a start (it rebuilds the list from the keys, and `main` sets the configuration again);
recovery puts the store in place as it is. So the memory cap, the size limits and the switches of the server
are gone, and a key of the snapshot is out of reach of the eviction until some call moves it to the end of
the list.

`recovery_operational_iff` says for every recovery that goes through when the server can do with its store
what it did before: its configuration was the default one anyway, and every key of the snapshot is reached by
an entry of the log that is carried out (`KvStore.ReachedBy`). Both handlers are covered; of the two, the
route table reaches the one to a time stamp only (`Daikon.Api.Routes`), and `cap_lost` is a request to it.
-/
import Daikon.Pitr.Recover
import Daikon.Store.Reached

namespace Daikon.Pitr

/-- The two recovery handlers. -/
inductive Recovery where
  | toTimestamp (target : Nat)
  /-- The route of the other one takes its requests, too. -/
  | latestSnapshot

namespace Recovery

/-- The request as its handler gets it, with what the recovery computes from the files. -/
def request (c : SnapshotCodec) (rt : Runtime) (disk : RecoverIo) : Recovery → Request
  | toTimestamp target => .pitrRecoverToTimestamp target (recoverToTimestamp c rt disk target)
  | latestSnapshot => .pitrRecoverLatestSnapshot (recoverToLatestSnapshot c rt disk)

/-- The time stamp that is recovered to. -/
def target (listing : List SnapshotFile) : Recovery → Option Nat
  | toTimestamp target => some target
  | latestSnapshot => (listSnapshots listing).head?.map SnapshotMetadata.timestamp

end Recovery

/-- A recovery that goes through: the directory, the snapshot and the log can be read. -/
structure Succeeds (c : SnapshotCodec) (disk : RecoverIo) (recovery : Recovery) (target : Nat)
    (base : KvStore) (wal : List WalEntry) : Prop where
  recovery : ∃ listing, disk.listing = .ok listing ∧ recovery.target listing = some target ∧
    baseStore c disk listing target = .ok base
  log : disk.readAll = .ok wal

/-- The server goes on as before: the same configuration, and every key in reach of the eviction. -/
structure Operational (before after : KvStore) : Prop where
  config : after.config = before.config
  tracked : ∀ k ∈ after.store, k ∈ after.lruOrder

/-- An admitted recovery that goes through puts its store in place. -/
theorem Succeeds.store {c : SnapshotCodec} (rt : Runtime) {srv : Server} {io : Io} {disk : RecoverIo}
    {recovery : Recovery} {target : Nat} {base : KvStore} {wal : List WalEntry}
    (h : Succeeds c disk recovery target base wal)
    (hkey : requireApiKey io.headers srv.runtime = none) :
    (srv.handle rt io (recovery.request c rt disk)).2.store
      = base.writes rt (rawCalls (carriedOut disk target wal)) := by
  obtain ⟨listing, hlisting, htarget, hbase⟩ := h.recovery
  have hrecover := recoverToTimestamp_eq rt hlisting h.log hbase
  rw [applyAll_writes] at hrecover
  unfold Server.handle
  rw [hkey]
  cases recovery with
  | toTimestamp target' =>
      cases htarget
      simp only [Recovery.request, hrecover]
      rfl
  | latestSnapshot =>
      -- the newest snapshot is the target
      obtain ⟨latest, hlatest, rfl⟩ := Option.map_eq_some_iff.mp htarget
      obtain ⟨rest, hlist⟩ := List.head?_eq_some_iff.mp hlatest
      have hsame : recoverToLatestSnapshot c rt disk
          = recoverToTimestamp c rt disk latest.timestamp := by
        unfold recoverToLatestSnapshot
        rw [hlisting]
        simp only [hlist]
      simp only [Recovery.request, hsame, hrecover]
      rfl

/-- Whatever the server and its store: a recovery leaves it operational exactly if its configuration
is the default one and every key of the snapshot is reached by one of the entries carried out. -/
theorem recovery_operational_iff (rt : Runtime) (c : SnapshotCodec) (srv : Server) {io : Io}
    {disk : RecoverIo} {recovery : Recovery} {target : Nat} {base : KvStore} {wal : List WalEntry}
    (hkey : requireApiKey io.headers srv.runtime = none)
    (hsucceeds : Succeeds c disk recovery target base wal) :
    Operational srv.store (srv.handle rt io (recovery.request c rt disk)).2.store ↔
      srv.store.config = {} ∧
        ∀ k ∈ base.store, KvStore.ReachedBy rt k (rawCalls (carriedOut disk target wal)) base := by
  obtain ⟨listing, -, -, hbase⟩ := hsucceeds.recovery
  obtain ⟨saved, rfl⟩ := baseStore_saved hbase
  have hstore := hsucceeds.store rt hkey
  have hconfig : (srv.handle rt io (recovery.request c rt disk)).2.store.config = {} := by
    rw [hstore, KvStore.writes_config]
    rfl
  have htracked : ∀ k, (srv.handle rt io (recovery.request c rt disk)).2.store.Tracked k ↔
      KvStore.ReachedBy rt k (rawCalls (carriedOut disk target wal)) saved.toStore ∨
        saved.toStore.Tracked k := by
    intro k
    rw [hstore]
    exact KvStore.writes_tracked rt _ rfl
  -- nothing of the snapshot is in the list
  have hlist : ∀ k, saved.toStore.Tracked k ↔ k ∉ saved.toStore.store := by
    intro k
    exact ⟨fun h hk => (by cases h hk), fun h hk => absurd hk h⟩
  constructor
  · intro h
    refine ⟨h.config.symm.trans hconfig, fun k hk => ?_⟩
    rcases (htracked k).mp (h.tracked k) with hreached | hold
    · exact hreached
    · exact absurd hk ((hlist k).mp hold)
  · rintro ⟨hdefault, hreached⟩
    refine ⟨hconfig.trans hdefault.symm, fun k => (htracked k).mpr ?_⟩
    by_cases hk : k ∈ saved.toStore.store
    · exact .inl (hreached k hk)
    · exact .inr ((hlist k).mpr hk)

/-- The snapshot holds one key, and the entry that is carried out pushes to it. -/
theorem recovery_operational_iff_push :
    Operational snapshotAfter.server.store (snapshotAfter.server.handle .strings (Io.healthy 7)
      ((Recovery.toTimestamp 6000000000).request snapshotCodec .strings
        (snapshotAfter.recoverIo 7))).2.store := by
  have hsucceeds : Succeeds snapshotCodec (snapshotAfter.recoverIo 7) (.toTimestamp 6000000000)
      6000000000 pushedStore.toStore snapshotAfter.server.wal := by
    refine ⟨⟨snapshotAfter.dir, rfl, rfl, ?_⟩, rfl⟩
    decide +kernel
  refine (recovery_operational_iff .strings snapshotCodec snapshotAfter.server rfl
    hsucceeds).mpr ⟨?_, ?_⟩
  · decide +kernel
  · intro k hk
    rcases KvStore.mem_insert_iff (s := {}).mp hk with rfl | hempty
    · exact .inl ⟨rfl, by decide, by decide⟩
    · exact absurd hempty (Std.ExtTreeMap.not_mem_empty)

/-- A script sets a field of the hash `k`, which logs nothing. -/
def setField : LuaScript where
  text := "hset('k', 'f', 'v')"
  calls := [.hset "k" "f" "v"]
  outcome := .ok "true"

/-- The store that this leaves. -/
def hashStore : SavedStore where
  store := (∅ : Entries).insert "k" ⟨.hash ((∅ : Fields).insert "f" "v"), none⟩
  stats := { totalKeys := 1, totalWrites := 1, memoryBytes := 50 }

/-- Its text in the snapshot. -/
def hashText : String :=
  snapshotText
    "\x7b\n    \"k\": \x7b\n      \"value\": \x7b\n        \"Hash\": \x7b\n          \"f\": \"v\"\n        \x7d\n      \x7d,\n      \"expires_at\": null\n    \x7d\n  \x7d"
    1 1 50

/-- A server with a cap of a thousand bytes runs the script and takes a snapshot. -/
def cappedServer : PitrServer :=
  .after .strings (.plain [(hashStore, hashText)]) { maxMemoryBytes := 1000 } none false
    [.request (Io.healthy 5) (.luaExec setField), .createSnapshot { nanos := 6000000000 }]

/-- Recovery to the time of that snapshot drops the cap, and the key is in the store but not in the list. -/
theorem cap_lost :
    Succeeds (.plain [(hashStore, hashText)]) (cappedServer.recoverIo 7) (.toTimestamp 6000000000) 6000000000
        hashStore.toStore cappedServer.server.wal ∧
      ¬ Operational cappedServer.server.store (cappedServer.server.handle .strings (Io.healthy 7)
        ((Recovery.toTimestamp 6000000000).request (.plain [(hashStore, hashText)]) .strings
          (cappedServer.recoverIo 7))).2.store ∧
      ¬ KvStore.Tracked (cappedServer.server.handle .strings (Io.healthy 7)
        ((Recovery.toTimestamp 6000000000).request (.plain [(hashStore, hashText)]) .strings
          (cappedServer.recoverIo 7))).2.store "k" := by
  have hsucceeds : Succeeds (.plain [(hashStore, hashText)]) (cappedServer.recoverIo 7)
      (.toTimestamp 6000000000) 6000000000 hashStore.toStore cappedServer.server.wal := by
    refine ⟨⟨cappedServer.dir, rfl, ?_, ?_⟩, rfl⟩
    · decide +kernel
    · decide +kernel
  have hkey : requireApiKey (Io.healthy 7).headers cappedServer.server.runtime = none := rfl
  have hstore := hsucceeds.store .strings hkey
  refine ⟨hsucceeds, fun h => ?_, ?_⟩
  · have hconfig := h.config
    rw [hstore] at hconfig
    revert hconfig
    decide +kernel
  · rw [hstore]
    decide +kernel

end Daikon.Pitr
