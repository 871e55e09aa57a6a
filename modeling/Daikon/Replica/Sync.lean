/-
# Daikon.Replica.Sync -- what one sync does

The guard against repeats within a batch never acts: a time stamp that is remembered in the batch is
also remembered by the replica. So a sync carries out, in order, the first entry of each new time
stamp of the answer (`syncLoop_eq`), and it stops at the first one that the store refuses or that
cannot be appended (`applyEntries_ok_iff`).

The loop of the source does three things at once, and this module takes them apart: which entries are new
(`newEntries`, a fact about lists and time stamps), how they are carried out one after another
(`applyEntries`), and where that stops. `applyEntries` is a plain fold with an early end, so the results
about a sync are proved by induction on the entries and not on the batch with its guards.

What a sync leaves is said once for each of its two ends, `sync_applied` and `sync_failed`. The modules
about runs use these and do not unfold the loop again.
-/
import Daikon.Lib.FirstBy
import Daikon.Lib.Run
import Daikon.Recovery.Crash
import Daikon.Replica.State

namespace Daikon

open Lib (firstBy keys)
open Lib.Run (Guarded)

namespace ReplicationReplica

/-! ## The entries that pass the guards -/

/-- Carry out and append entries, each given with its place in the answer, up to the first error. -/
def applyEntries (rt : Runtime) (io : SyncIo) :
    List (WalEntry × Nat) → ReplicationReplica → Except KvStoreError Unit × ReplicationReplica
  | [], r => (.ok (), r)
  | (entry, n) :: entries, r =>
      match r.applyWalEntry rt (io.now n) (io.disk n) entry with
      | (.error e, r) => (.error e, r)
      | (.ok (), r) => applyEntries rt io entries (r.remember entry.timestamp)

/-- The entries of an answer with a time stamp not carried out yet, the first of each. -/
def newEntries (r : ReplicationReplica) (n : Nat) (entries : List WalEntry) :
    List (WalEntry × Nat) :=
  firstBy (fun e => e.1.timestamp) r.appliedEntryTimestamps (entries.zipIdx n)

theorem map_newEntries (r : ReplicationReplica) (n : Nat) (entries : List WalEntry) :
    (r.newEntries n entries).map Prod.fst
      = firstBy WalEntry.timestamp r.appliedEntryTimestamps entries := by
  have hkey : ∀ e : WalEntry × Nat, e.1.timestamp = WalEntry.timestamp (Prod.fst e) := fun _ => rfl
  rw [newEntries, Lib.map_firstBy hkey, List.zipIdx_map_fst]

theorem newEntries_cons_of_mem {r : ReplicationReplica} {entry : WalEntry}
    (h : entry.timestamp ∈ r.appliedEntryTimestamps) (n : Nat) (entries : List WalEntry) :
    r.newEntries n (entry :: entries) = r.newEntries (n + 1) entries := by
  rw [newEntries, List.zipIdx_cons, firstBy, if_pos h]
  rfl

theorem newEntries_cons_of_notMem {r : ReplicationReplica} {entry : WalEntry}
    (h : entry.timestamp ∉ r.appliedEntryTimestamps) (n : Nat) (entries : List WalEntry) :
    r.newEntries n (entry :: entries)
      = (entry, n) :: (r.remember entry.timestamp).newEntries (n + 1) entries := by
  rw [newEntries, List.zipIdx_cons, firstBy, if_neg h]
  rfl

theorem applyWalEntry_timestamps (rt : Runtime) (now : Nat) (disk : Option KvStoreError)
    (r : ReplicationReplica) (entry : WalEntry) :
    (r.applyWalEntry rt now disk entry).2.appliedEntryTimestamps = r.appliedEntryTimestamps := by
  unfold applyWalEntry
  rcases applyOperation rt now r.store entry.operation with ⟨_ | _, store⟩
  · rfl
  · cases disk <;> rfl

/-- The store, too, is that after the call, whether the entry was accepted or not. -/
theorem applyWalEntry_store (rt : Runtime) (now : Nat) (disk : Option KvStoreError)
    (r : ReplicationReplica) (entry : WalEntry) : (r.applyWalEntry rt now disk entry).2.store
      = (r.store.write rt now entry.operation.raw).2 := by
  rw [← applyOperation_snd]
  unfold applyWalEntry
  rcases applyOperation rt now r.store entry.operation with ⟨_ | _, store⟩
  · rfl
  · cases disk <;> rfl

/-- The local log has the entry if it was accepted. -/
theorem applyWalEntry_wal (rt : Runtime) (now : Nat) (disk : Option KvStoreError)
    (r : ReplicationReplica) (entry : WalEntry) : (r.applyWalEntry rt now disk entry).2.wal
      = match (r.applyWalEntry rt now disk entry).1 with
        | .ok _ => r.wal ++ [entry]
        | .error _ => r.wal := by
  unfold applyWalEntry
  rcases applyOperation rt now r.store entry.operation with ⟨_ | _, store⟩
  · rfl
  · cases disk <;> rfl

/-- The loop carries out the entries that pass both guards, and no other. -/
theorem syncLoop_eq (rt : Runtime) (io : SyncIo) (entries : List WalEntry) :
    ∀ (n : Nat) (batchSeen : Finset Nat) (count : Nat) (r : ReplicationReplica),
      batchSeen ⊆ r.appliedEntryTimestamps →
      syncLoop rt io n entries batchSeen count r
        = ((applyEntries rt io (r.newEntries n entries) r).1.map
            (fun _ => count + (r.newEntries n entries).length),
          (applyEntries rt io (r.newEntries n entries) r).2) := by
  induction entries with
  | nil => intro n batchSeen count r _; rfl
  | cons entry entries ih =>
      intro n batchSeen count r hseen
      by_cases hold : entry.timestamp ∈ r.appliedEntryTimestamps
      · -- skipped, whichever of the two guards sees it
        have hinsert : insert entry.timestamp batchSeen ⊆ r.appliedEntryTimestamps :=
          Finset.insert_subset hold hseen
        rw [syncLoop, newEntries_cons_of_mem hold, if_pos hold, ih (n + 1) _ count r hinsert,
          ih (n + 1) _ count r hseen, ite_self]
      · have hbatch : entry.timestamp ∉ batchSeen := fun h => hold (hseen h)
        have hkept := applyWalEntry_timestamps rt (io.now n) (io.disk n) r entry
        rw [syncLoop, if_neg hbatch, if_neg hold,
          newEntries_cons_of_notMem hold, applyEntries]
        rcases hr : r.applyWalEntry rt (io.now n) (io.disk n) entry with ⟨e | _, r'⟩
        · rfl
        · rw [hr] at hkept
          have happlied : (r'.remember entry.timestamp).appliedEntryTimestamps
              = (r.remember entry.timestamp).appliedEntryTimestamps := congrArg (insert _) hkept
          have hsubset : insert entry.timestamp batchSeen
              ⊆ (r'.remember entry.timestamp).appliedEntryTimestamps := by
            rw [happlied]
            exact Finset.insert_subset_insert _ hseen
          have hrest := ih (n + 1) _ (count + 1) (r'.remember entry.timestamp) hsubset
          rw [newEntries, happlied, ← newEntries] at hrest
          refine hrest.trans ?_
          rw [List.length_cons, Nat.add_assoc, Nat.add_comm 1]

/-! ## What they leave -/

/-- The history only grows. -/
theorem carriedOut_prefix_applyEntries (rt : Runtime) (io : SyncIo)
    (entries : List (WalEntry × Nat)) :
    ∀ r : ReplicationReplica, r.carriedOut <+: (applyEntries rt io entries r).2.carriedOut := by
  induction entries with
  | nil => intro r; exact List.prefix_rfl
  | cons e entries ih =>
      intro r
      obtain ⟨entry, n⟩ := e
      rw [applyEntries]
      unfold applyWalEntry
      rcases applyOperation rt (io.now n) r.store entry.operation with ⟨e | _, store⟩
      · exact List.prefix_rfl
      · cases io.disk n with
        | some e => exact List.prefix_append _ _
        | none =>
            refine (List.prefix_append r.carriedOut [entry]).trans ?_
            exact ih (remember { r with store, carriedOut := _, wal := r.wal ++ [entry] } _)

/-- The position is not moved by the entries themselves. -/
theorem applyEntries_lastAppliedIndex (rt : Runtime) (io : SyncIo)
    (entries : List (WalEntry × Nat)) :
    ∀ r : ReplicationReplica,
      (applyEntries rt io entries r).2.lastAppliedIndex = r.lastAppliedIndex := by
  induction entries with
  | nil => intro r; rfl
  | cons e entries ih =>
      intro r
      obtain ⟨entry, n⟩ := e
      rw [applyEntries]
      unfold applyWalEntry
      rcases applyOperation rt (io.now n) r.store entry.operation with ⟨e | _, store⟩
      · rfl
      · cases io.disk n with
        | some e => rfl
        | none => exact ih _

/-- What the replica has after entries that nothing stopped. -/
structure Applied (r r' : ReplicationReplica) (entries : List WalEntry) : Prop where
  wal : r'.wal = r.wal ++ entries
  timestamps : r'.appliedEntryTimestamps
    = r.appliedEntryTimestamps ∪ keys WalEntry.timestamp entries
  carriedOut : r'.carriedOut = r.carriedOut ++ entries

theorem applyEntries_applied {rt : Runtime} {io : SyncIo} {entries : List (WalEntry × Nat)} :
    ∀ {r : ReplicationReplica}, (applyEntries rt io entries r).1 = .ok () →
      Applied r (applyEntries rt io entries r).2 (entries.map Prod.fst) := by
  induction entries with
  | nil => intro r _; exact ⟨by simp [applyEntries], by simp [applyEntries], by simp [applyEntries]⟩
  | cons e entries ih =>
      intro r
      obtain ⟨entry, n⟩ := e
      rw [applyEntries]
      unfold applyWalEntry
      rcases applyOperation rt (io.now n) r.store entry.operation with ⟨e | _, store⟩
      · intro h; cases h
      · cases io.disk n with
        | some e => intro h; cases h
        | none =>
            intro h
            obtain ⟨hwal, htimestamps, hcarried⟩ := ih h
            refine ⟨?_, ?_, ?_⟩
            · rw [hwal]; simp [remember]
            · rw [htimestamps]; simp [remember, Finset.insert_union]
            · rw [hcarried]; simp [remember]

/-- The entries are all accepted by the store, each at its turn, and appended. -/
def Accepts (rt : Runtime) (io : SyncIo) : KvStore → List (WalEntry × Nat) → Prop :=
  Guarded (fun s e => (s.write rt (io.now e.2) e.1.operation.raw).2)
    fun s e => ¬ e.1.operation.Refused s ∧ io.disk e.2 = none

/-- Nothing stops the entries exactly when all of them are accepted. -/
theorem applyEntries_ok_iff (rt : Runtime) (io : SyncIo) (entries : List (WalEntry × Nat)) :
    ∀ r : ReplicationReplica,
      (applyEntries rt io entries r).1 = .ok () ↔ Accepts rt io r.store entries := by
  induction entries with
  | nil => intro r; simp [applyEntries, Accepts]
  | cons e entries ih =>
      intro r
      obtain ⟨entry, n⟩ := e
      have hok := applyOperation_ok_iff rt (io.now n) r.store entry.operation
      have hstore := applyOperation_snd rt (io.now n) r.store entry.operation
      rw [applyEntries, Accepts, Lib.Run.guarded_cons, ← hok, ← hstore]
      unfold applyWalEntry
      rcases applyOperation rt (io.now n) r.store entry.operation with ⟨e | _, store⟩
      · simp
      · cases io.disk n with
        | some e => simp
        | none =>
            simp only [true_and]
            exact ih _

/-- With a store that refuses the first entry nothing is carried out. -/
theorem applyEntries_of_refused {rt : Runtime} {io : SyncIo} {e : WalEntry × Nat}
    {entries : List (WalEntry × Nat)} {r : ReplicationReplica} (h : e.1.operation.Refused r.store) :
    (applyEntries rt io (e :: entries) r).2
      = { r with store := (r.store.write rt (io.now e.2) e.1.operation.raw).2 } := by
  obtain ⟨entry, n⟩ := e
  have hok := applyOperation_ok_iff rt (io.now n) r.store entry.operation
  have hstore := applyOperation_snd rt (io.now n) r.store entry.operation
  rw [applyEntries]
  unfold applyWalEntry
  rcases hr : applyOperation rt (io.now n) r.store entry.operation with ⟨e | _, store⟩
  · rw [hr] at hstore
    rw [← hstore]
  · rw [hr] at hok
    exact absurd h (hok.mp rfl)

/-- With a store that accepts the first entry the history grows. -/
theorem carriedOut_applyEntries_of_accepted (rt : Runtime) (io : SyncIo) {e : WalEntry × Nat}
    (entries : List (WalEntry × Nat)) {r : ReplicationReplica}
    (h : ¬ e.1.operation.Refused r.store) :
    r.carriedOut.length < (applyEntries rt io (e :: entries) r).2.carriedOut.length := by
  obtain ⟨entry, n⟩ := e
  have hok := (applyOperation_ok_iff rt (io.now n) r.store entry.operation).mpr h
  rw [applyEntries]
  unfold applyWalEntry
  rcases hr : applyOperation rt (io.now n) r.store entry.operation with ⟨e | _, store⟩
  · rw [hr] at hok
    cases hok
  · cases io.disk n with
    | some e => simp
    | none =>
        have hle := (carriedOut_prefix_applyEntries rt io entries
          (remember { r with store, carriedOut := r.carriedOut ++ [entry], wal := r.wal ++ [entry] }
            entry.timestamp)).length_le
        simp only [remember, List.length_append, List.length_singleton] at hle
        exact hle

/-! ## The whole sync -/

/-- The entries that a sync with `master` goes through. -/
def pending (r : ReplicationReplica) (master : List WalEntry) : List (WalEntry × Nat) :=
  r.newEntries 0 (getWalEntries master r.lastAppliedIndex 100)

theorem sync_of_unreachable (rt : Runtime) (r : ReplicationReplica) {io : SyncIo}
    (master : List WalEntry) (h : ¬ (io.heartbeat = none ∧ io.fetch = none)) :
    (∃ e, (r.sync rt io master).1 = .error e) ∧ (r.sync rt io master).2 = r := by
  unfold sync
  cases hheartbeat : io.heartbeat with
  | some e => exact ⟨⟨e, rfl⟩, rfl⟩
  | none =>
      cases hfetch : io.fetch with
      | some e => exact ⟨⟨e, rfl⟩, rfl⟩
      | none => exact absurd ⟨hheartbeat, hfetch⟩ h

/-- Reaching the master, a sync is the loop over the pending entries and, if that went through, the
new position. -/
theorem sync_of_reachable {rt : Runtime} {r : ReplicationReplica} {io : SyncIo}
    {master : List WalEntry} (hheartbeat : io.heartbeat = none) (hfetch : io.fetch = none) :
    r.sync rt io master = match applyEntries rt io (r.pending master) r with
      | (.error e, r') => (.error e, r')
      | (.ok (), r') => (.ok (r.pending master).length,
          ReplicationReplica.finish
            { r' with lastAppliedIndex := r'.lastAppliedIndex + (r.pending master).length }
            io master.length) := by
  unfold sync pending
  rw [hheartbeat, hfetch]
  cases hbatch : getWalEntries master r.lastAppliedIndex 100 with
  | nil => rfl
  | cons entry entries =>
      simp only
      rw [syncLoop_eq rt io (entry :: entries) 0 ∅ 0 r (Finset.empty_subset _), Nat.zero_add]
      rcases applyEntries rt io (r.newEntries 0 (entry :: entries)) r with ⟨_ | _, r'⟩ <;> rfl

/-- A sync goes through exactly when the master is reached and every pending entry is accepted. -/
theorem sync_ok_iff {rt : Runtime} {r : ReplicationReplica} {io : SyncIo} {master : List WalEntry} :
    (∃ n, (r.sync rt io master).1 = .ok n) ↔
      io.heartbeat = none ∧ io.fetch = none ∧ Accepts rt io r.store (r.pending master) := by
  rw [← and_assoc]
  by_cases hreach : io.heartbeat = none ∧ io.fetch = none
  · rw [sync_of_reachable hreach.1 hreach.2, ← applyEntries_ok_iff]
    rcases applyEntries rt io (r.pending master) r with ⟨_ | _, r'⟩ <;> simp [hreach]
  · obtain ⟨⟨e, he⟩, -⟩ := sync_of_unreachable rt r master hreach
    simp [he, hreach]

/-- What a sync that went through leaves. -/
theorem sync_applied {rt : Runtime} {r : ReplicationReplica} {io : SyncIo} {master : List WalEntry}
    (h : ∃ n, (r.sync rt io master).1 = .ok n) :
    Applied r (r.sync rt io master).2 ((r.pending master).map Prod.fst) ∧
      (r.sync rt io master).2.lastAppliedIndex = r.lastAppliedIndex + (r.pending master).length := by
  obtain ⟨hheartbeat, hfetch, haccepts⟩ := sync_ok_iff.mp h
  have hok := (applyEntries_ok_iff rt io (r.pending master) r).mpr haccepts
  have happlied := applyEntries_applied hok
  have hindex := applyEntries_lastAppliedIndex rt io (r.pending master) r
  rw [sync_of_reachable hheartbeat hfetch]
  rcases hr : applyEntries rt io (r.pending master) r with ⟨_ | _, r'⟩ <;>
    rw [hr] at hok happlied hindex
  · cases hok
  · exact ⟨⟨happlied.wal, happlied.timestamps, happlied.carriedOut⟩,
      congrArg (· + (r.pending master).length) hindex⟩

/-- A sync that did not go through leaves what its loop left. -/
theorem sync_failed {rt : Runtime} {r : ReplicationReplica} {io : SyncIo} {master : List WalEntry}
    (hheartbeat : io.heartbeat = none) (hfetch : io.fetch = none)
    (h : ¬ Accepts rt io r.store (r.pending master)) :
    (r.sync rt io master).2 = (applyEntries rt io (r.pending master) r).2 := by
  rw [← applyEntries_ok_iff] at h
  rw [sync_of_reachable hheartbeat hfetch]
  rcases hr : applyEntries rt io (r.pending master) r with ⟨_ | _, r'⟩
  · rfl
  · rw [hr] at h
    exact absurd rfl h

end ReplicationReplica

end Daikon
