/-
# Daikon.Replica.Replication -- runs of a master and its replica

The master logs requests; the replica syncs, restarts over its own log, and serves requests of its
own that go to the same log. Three questions are asked of such runs: what the local log is
(`local_log_is_prefix`), when a sync goes through (`sync_ok_iff_accepted`), and when the position
of the replica is right (`position_exact_iff`).

The clock of the master is not assumed to do anything in particular: time stamps may repeat and go back. The
first result has to live with that and says of the local log that it is the master's without repeats. The
third asks for distinct time stamps, since with a repeat the position is wrong by design.

`NoneRefused` and `KeepsPosition` are conditions on the state before the sync, the log of the master among
it: whether an entry is refused depends on what stands at its key at its turn. A sync that stops after it
has carried out an entry has moved the store and not the position, and the sync after it carries the entry
out once more. Where a local append fails, the entry is on the store and not in the log, and the append is
taken to have written nothing.
-/
import Daikon.Replica.Sync

namespace Daikon

open Lib (firstBy keys)
open Lib.Run (Always Guarded always_iff_guarded)

/-- A master's log and a replica of it. -/
structure Replication where
  master : List WalEntry := []
  replica : ReplicationReplica

namespace Replication

/-- What can happen to the two. -/
inductive Action where
  /-- The master logs a request. -/
  | append (now : Nat) (operation : WalOperation)
  | sync (io : SyncIo)
  /-- The replica is made anew over this store and the log it has. -/
  | restart (store : KvStore)
  /-- A request to the replica's own HTTP API. -/
  | client (runtime : Option ApiRuntimeConfig) (io : Io) (req : Request)

/-- A master without requests and a replica without a log. -/
def start (store : KvStore) : Replication := { replica := .new store [] }

/-- What happens then. A restart and a client leave the history of what was carried out. -/
def step (rt : Runtime) (s : Replication) : Action → Replication
  | .append now operation => { s with master := s.master ++ [WalEntry.new now operation] }
  | .sync io => { s with replica := (s.replica.sync rt io s.master).2 }
  | .restart store =>
      { s with replica := { ReplicationReplica.new store s.replica.wal with
          carriedOut := s.replica.carriedOut } }
  | .client runtime io req =>
      let srv := Server.serve rt { store := s.replica.store, wal := s.replica.wal, runtime } (io, req)
      { s with replica := { s.replica with store := srv.store, wal := srv.wal } }

/-! ## The entries between the position and the end -/

theorem getWalEntries_eq (wal : List WalEntry) (fromIndex limit : Nat) :
    getWalEntries wal fromIndex limit = (wal.drop fromIndex).take limit := by
  unfold getWalEntries
  split
  · next h => rw [List.drop_eq_nil_of_le h, List.take_nil]
  · rfl

/-- The master's log up to the position, the entries of the next fetch, and the others. -/
theorem master_split (wal : List WalEntry) (i limit : Nat) :
    wal = wal.take i ++ (getWalEntries wal i limit ++ (wal.drop i).drop limit) := by
  rw [getWalEntries_eq, List.take_append_drop, List.take_append_drop]

/-! ## The local log -/

/-- Only requests and syncs, and every sync goes through. -/
def Completes (rt : Runtime) (s : Replication) : Action → Prop
  | .append _ _ => True
  | .sync io => ∃ n, (s.replica.sync rt io s.master).1 = .ok n
  | .restart _ | .client _ _ _ => False

/-- The master's log without the entries that have the time stamp of an earlier one. -/
def firstOfTimestamp (wal : List WalEntry) : List WalEntry := firstBy WalEntry.timestamp ∅ wal

/-- The local log is the part of that up to the position. -/
structure Follows (s : Replication) : Prop where
  length : s.replica.wal.length = s.replica.lastAppliedIndex
  wal : s.replica.wal = (firstOfTimestamp s.master).take s.replica.lastAppliedIndex

/-- The invariant: with it, the time stamps are those of the local log. -/
structure Following (s : Replication) : Prop extends Follows s where
  timestamps : s.replica.appliedEntryTimestamps = keys WalEntry.timestamp s.replica.wal

theorem Following.append {s : Replication} (h : Following s) (rt : Runtime) (now : Nat)
    (operation : WalOperation) : Following (s.step rt (.append now operation)) := by
  refine ⟨⟨h.length, ?_⟩, h.timestamps⟩
  have hlength : s.replica.lastAppliedIndex ≤ (firstOfTimestamp s.master).length := by
    have hwal := congrArg List.length h.wal
    rw [h.length, List.length_take] at hwal
    omega
  show s.replica.wal = _
  simp only [step, firstOfTimestamp, Lib.firstBy_append] at hlength ⊢
  rw [List.take_append_of_le_length hlength]
  exact h.wal

/-- The pending entries come next among the first ones of their time stamps. -/
theorem Following.pending {s : Replication} (h : Following s) :
    (s.replica.pending s.master).map Prod.fst
      <+: (firstOfTimestamp s.master).drop s.replica.lastAppliedIndex := by
  have hseen : (∅ : Finset Nat) ∪ keys WalEntry.timestamp
      ((firstOfTimestamp s.master).take s.replica.lastAppliedIndex)
        = s.replica.appliedEntryTimestamps := by
    rw [Finset.empty_union, ← h.wal, h.timestamps]
  have hbefore : keys WalEntry.timestamp (s.master.take s.replica.lastAppliedIndex)
      ⊆ s.replica.appliedEntryTimestamps := by
    rw [← hseen]
    exact Lib.keys_take_subset s.master ∅ s.replica.lastAppliedIndex
  -- what is left of the whole log is what the fetch gives, and more
  have hrest : firstBy WalEntry.timestamp s.replica.appliedEntryTimestamps s.master
      = (firstOfTimestamp s.master).drop s.replica.lastAppliedIndex := by
    rw [← hseen]
    exact Lib.firstBy_drop s.master ∅ s.replica.lastAppliedIndex
  rw [← hrest, ReplicationReplica.pending, ReplicationReplica.map_newEntries]
  conv => rhs; rw [master_split s.master s.replica.lastAppliedIndex 100]
  rw [Lib.firstBy_append, Lib.firstBy_eq_nil hbefore, List.nil_append, Lib.firstBy_append,
    Finset.union_eq_left.mpr hbefore]
  exact List.prefix_append _ _

theorem Following.sync {s : Replication} (h : Following s) {rt : Runtime} {io : SyncIo}
    (hok : ∃ n, (s.replica.sync rt io s.master).1 = .ok n) :
    Following (s.step rt (.sync io)) := by
  obtain ⟨⟨hwal, htimestamps, -⟩, hindex⟩ := ReplicationReplica.sync_applied hok
  obtain ⟨rest, hrest⟩ := h.pending
  refine ⟨⟨?_, ?_⟩, ?_⟩
  · simp only [step]
    rw [hwal, hindex, List.length_append, List.length_map, h.length]
  · simp only [step]
    rw [hwal, hindex, List.take_add, ← h.wal, ← hrest]
    congr 1
    rw [List.take_append_of_le_length (by rw [List.length_map])]
    exact (List.take_of_length_le (by rw [List.length_map])).symm
  · simp only [step]
    rw [htimestamps, hwal, Lib.keys_append, h.timestamps]

/-- In every run in which every sync goes through, whatever the clock: the local log is, up to the
position, the master's log without the entries that repeat a time stamp. -/
theorem local_log_is_prefix (rt : Runtime) (store : KvStore) (actions : List Action)
    (h : Guarded (step rt) (Completes rt) (start store) actions) :
    Always (step rt) Follows (start store) actions := by
  refine Lib.Run.Always.mono (fun s (hs : Following s) => hs.toFollows) ?_
  refine h.always (fun s a hs ha => ?_) ⟨⟨rfl, rfl⟩, rfl⟩
  cases a with
  | append now operation => exact hs.append rt now operation
  | sync io => exact hs.sync ha
  | restart store => exact ha.elim
  | client runtime io req => exact ha.elim

/-- Three requests in two seconds, then a sync. -/
def sameSecond : List Action :=
  [.append 5 (.delete "a"), .append 5 (.delete "b"), .append 6 (.delete "c"), .sync {}]

theorem local_log_is_prefix_sameSecond :
    Always (step .strings) Follows (start (.withConfig {})) sameSecond :=
  local_log_is_prefix .strings (.withConfig {}) sameSecond
    ⟨trivial, trivial, trivial, ⟨2, rfl⟩, trivial⟩

/-- The second entry is skipped, and the position counts the third in its place. -/
theorem second_entry_skipped :
    Guarded (step .strings) (Completes .strings) (start (.withConfig {})) sameSecond ∧
      ¬ Always (step .strings) (fun s => s.replica.wal = s.master.take s.replica.lastAppliedIndex)
        (start (.withConfig {})) sameSecond := by
  refine ⟨⟨trivial, trivial, trivial, ⟨2, rfl⟩, trivial⟩, fun h => ?_⟩
  exact absurd h.last (by decide)

/-- Where no time stamp repeats, nothing is left out. -/
theorem firstOfTimestamp_of_nodup {wal : List WalEntry} (h : (wal.map WalEntry.timestamp).Nodup) :
    firstOfTimestamp wal = wal :=
  Lib.firstBy_eq_self h fun _ _ => Finset.notMem_empty _

/-! ## When a sync goes through -/

/-- No entry is refused by the store that the entries before it leave. -/
def NoneRefused (rt : Runtime) (now : Nat → Nat) : KvStore → List (WalEntry × Nat) → Prop :=
  Guarded (fun s e => (s.write rt (now e.2) e.1.operation.raw).2)
    fun s e => ¬ e.1.operation.Refused s

/-- For every master log and every replica: where the network and the local log do not fail, a sync
goes through exactly when no entry it has to carry out is refused by the store at its turn. -/
theorem sync_ok_iff_accepted (rt : Runtime) (r : ReplicationReplica) (io : SyncIo)
    (master : List WalEntry) (hheartbeat : io.heartbeat = none) (hfetch : io.fetch = none)
    (hdisk : ∀ n, io.disk n = none) :
    (∃ n, (r.sync rt io master).1 = .ok n) ↔ NoneRefused rt io.now r.store (r.pending master) := by
  have haccepts : ReplicationReplica.Accepts rt io r.store (r.pending master)
      ↔ NoneRefused rt io.now r.store (r.pending master) :=
    Lib.Run.guarded_congr fun s e => by simp only [hdisk, and_true]
  rw [ReplicationReplica.sync_ok_iff, haccepts]
  exact ⟨fun h => h.2.2, fun h => ⟨hheartbeat, hfetch, h⟩⟩

theorem sync_ok_iff_accepted_delete :
    ∃ n, ((ReplicationReplica.new (.withConfig {}) []).sync .strings {}
      [WalEntry.new 0 (.delete "k")]).1 = .ok n :=
  (sync_ok_iff_accepted .strings (.new (.withConfig {}) []) {} [WalEntry.new 0 (.delete "k")]
    rfl rfl fun _ => rfl).mpr ⟨fun h => h, trivial⟩

/-- The master logs INCR of a missing key and answers 400; the replica never gets past the entry. -/
theorem refused_incr_blocks_sync :
    let r := (Server.fresh {} none false).handle .strings (Io.healthy 0) (.incrValue "k")
    r.1.status = 400 ∧
      ¬ ∃ n, ((ReplicationReplica.new (.withConfig {}) []).sync .strings {} r.2.wal).1 = .ok n := by
  refine ⟨rfl, ?_⟩
  rintro ⟨n, hn⟩
  cases hn

/-! ## The position -/

/-- Every request of the master has a time stamp of its own. -/
def DistinctTimestamps (s : Replication) : Action → Prop
  | .append now _ => now ∉ s.master.map WalEntry.timestamp
  | _ => True

/-- The position is the number of entries carried out, and none was carried out twice. -/
structure PositionExact (s : Replication) : Prop where
  count : s.replica.lastAppliedIndex = s.replica.carriedOut.length
  once : s.replica.carriedOut.Nodup

/-- The steps that keep the position right. A sync must not stop after it has carried out an entry;
a restart needs a local log as long as the position. -/
def KeepsPosition (rt : Runtime) (s : Replication) : Action → Prop
  | .sync io =>
      io.heartbeat = none → io.fetch = none →
        (∀ e ∈ (s.replica.pending s.master).head?, e.1.operation.Refused s.replica.store) ∨
          ReplicationReplica.Accepts rt io s.replica.store (s.replica.pending s.master)
  | .restart _ => s.replica.wal.length = s.replica.lastAppliedIndex
  | .append _ _ | .client _ _ _ => True

/-- The invariant: what was carried out is the master's log up to the position. -/
structure InPlace (s : Replication) : Prop where
  distinct : (s.master.map WalEntry.timestamp).Nodup
  carriedOut : s.replica.carriedOut = s.master.take s.replica.lastAppliedIndex
  bound : s.replica.lastAppliedIndex ≤ s.master.length
  timestamps : s.replica.appliedEntryTimestamps ⊆ keys WalEntry.timestamp s.replica.carriedOut

theorem InPlace.exact {s : Replication} (h : InPlace s) : PositionExact s := by
  have hnodup : s.master.Nodup := h.distinct.of_map
  refine ⟨?_, ?_⟩
  · rw [h.carriedOut, List.length_take, Nat.min_eq_left h.bound]
  · rw [h.carriedOut]
    exact hnodup.sublist (List.take_sublist _ _)

/-- With distinct time stamps no entry of the fetch is skipped. -/
theorem InPlace.pending {s : Replication} (h : InPlace s) :
    (s.replica.pending s.master).map Prod.fst
      = getWalEntries s.master s.replica.lastAppliedIndex 100 := by
  have hsplit := master_split s.master s.replica.lastAppliedIndex 100
  have hdistinct := h.distinct
  rw [hsplit, List.map_append, List.nodup_append] at hdistinct
  obtain ⟨-, hafter, hdisjoint⟩ := hdistinct
  rw [List.map_append] at hafter hdisjoint
  rw [ReplicationReplica.pending, ReplicationReplica.map_newEntries]
  refine Lib.firstBy_eq_self (List.nodup_append.mp hafter).1 fun e he hseen => ?_
  obtain ⟨old, hold, heq⟩ := Lib.mem_keys.mp (h.timestamps hseen)
  rw [h.carriedOut] at hold
  exact hdisjoint _ (List.mem_map_of_mem hold) _
    (List.mem_append_left _ (List.mem_map_of_mem he)) heq

theorem InPlace.append {s : Replication} (h : InPlace s) (rt : Runtime) {now : Nat}
    {operation : WalOperation} (hnow : now ∉ s.master.map WalEntry.timestamp) :
    InPlace (s.step rt (.append now operation)) := by
  refine ⟨?_, ?_, ?_, h.timestamps⟩
  · simp only [step, List.map_append, List.map_cons, List.map_nil]
    exact List.nodup_append.mpr ⟨h.distinct, List.nodup_singleton _, fun t ht u hu => by
      have htime : u = now := List.mem_singleton.mp hu
      rintro rfl
      rw [htime] at ht
      exact hnow ht⟩
  · simp only [step]
    rw [List.take_append_of_le_length h.bound]
    exact h.carriedOut
  · simp only [step, List.length_append, List.length_singleton]
    have hbound := h.bound
    omega

/-- A sync that goes through moves the position over what it carried out. -/
theorem InPlace.sync {s : Replication} (h : InPlace s) {rt : Runtime} {io : SyncIo}
    (hok : ∃ n, (s.replica.sync rt io s.master).1 = .ok n) : InPlace (s.step rt (.sync io)) := by
  obtain ⟨⟨-, htimestamps, hcarried⟩, hindex⟩ := ReplicationReplica.sync_applied hok
  have hlength : (s.replica.pending s.master).length
      = (getWalEntries s.master s.replica.lastAppliedIndex 100).length := by
    rw [← h.pending, List.length_map]
  have hbatch := getWalEntries_eq s.master s.replica.lastAppliedIndex 100
  refine ⟨h.distinct, ?_, ?_, ?_⟩
  · simp only [step]
    have htake : (s.master.drop s.replica.lastAppliedIndex).take
        ((s.master.drop s.replica.lastAppliedIndex).take 100).length
          = (s.master.drop s.replica.lastAppliedIndex).take 100 := by
      rw [List.length_take, ← List.take_eq_take_min]
    rw [hcarried, hindex, h.pending, hlength, h.carriedOut, List.take_add, hbatch, htake]
  · simp only [step]
    rw [hindex, hlength, hbatch, List.length_take, List.length_drop]
    have hbound := h.bound
    omega
  · simp only [step]
    rw [htimestamps, hcarried, Lib.keys_append]
    exact Finset.union_subset_union_left h.timestamps

/-- A sync that carries nothing out moves nothing. -/
theorem InPlace.sync_idle {s : Replication} (h : InPlace s) {rt : Runtime} {io : SyncIo}
    {store : KvStore} (hidle : (s.replica.sync rt io s.master).2 = { s.replica with store }) :
    InPlace (s.step rt (.sync io)) := by
  refine ⟨h.distinct, ?_, ?_, ?_⟩ <;> simp only [step, hidle]
  · exact h.carriedOut
  · exact h.bound
  · exact h.timestamps

theorem InPlace.step {s : Replication} (h : InPlace s) {rt : Runtime} {a : Action}
    (hdistinct : DistinctTimestamps s a) (hkeeps : KeepsPosition rt s a) :
    InPlace (s.step rt a) := by
  cases a with
  | append now operation => exact h.append rt hdistinct
  | sync io =>
      by_cases hreach : io.heartbeat = none ∧ io.fetch = none
      · by_cases haccepts :
            ReplicationReplica.Accepts rt io s.replica.store (s.replica.pending s.master)
        · exact h.sync (ReplicationReplica.sync_ok_iff.mpr ⟨hreach.1, hreach.2, haccepts⟩)
        · -- the first pending entry is refused
          have hrefused := (hkeeps hreach.1 hreach.2).resolve_right haccepts
          have hfailed := ReplicationReplica.sync_failed hreach.1 hreach.2 haccepts
          rcases hpending : s.replica.pending s.master with _ | ⟨e, entries⟩
          · exact absurd (by rw [hpending]; trivial) haccepts
          · rw [hpending] at hrefused hfailed
            rw [ReplicationReplica.applyEntries_of_refused (hrefused e rfl)] at hfailed
            exact h.sync_idle hfailed
      · exact h.sync_idle (ReplicationReplica.sync_of_unreachable rt s.replica s.master hreach).2
  | restart store =>
      refine ⟨h.distinct, ?_, ?_, Finset.empty_subset _⟩ <;>
        simp only [Replication.step, ReplicationReplica.new, show s.replica.wal.length = _ from hkeeps]
      · exact h.carriedOut
      · exact h.bound
  | client runtime io req => exact ⟨h.distinct, h.carriedOut, h.bound, h.timestamps⟩

/-- A step of the other kind makes the position wrong at once. -/
theorem InPlace.step_wrong {s : Replication} (h : InPlace s) {rt : Runtime} {a : Action}
    (hkeeps : ¬ KeepsPosition rt s a) : ¬ PositionExact (s.step rt a) := by
  have hcount := h.exact.count
  intro hexact
  have hafter := hexact.count
  cases a with
  | append now operation => exact hkeeps trivial
  | client runtime io req => exact hkeeps trivial
  | restart store => exact hkeeps (hafter.trans hcount.symm)
  | sync io =>
      simp only [KeepsPosition, Classical.not_imp, not_or] at hkeeps
      obtain ⟨hheartbeat, hfetch, hhead, haccepts⟩ := hkeeps
      rcases hpending : s.replica.pending s.master with _ | ⟨e, entries⟩
      · exact hhead (by rw [hpending]; intro e he; cases he)
      · rw [hpending] at hhead
        -- it was carried out, and the position stays
        have haccepted : ¬ e.1.operation.Refused s.replica.store := fun hrefused =>
          hhead fun e' he' => by cases he'; exact hrefused
        have hgrows := ReplicationReplica.carriedOut_applyEntries_of_accepted rt io entries
          haccepted
        simp only [Replication.step] at hafter
        rw [ReplicationReplica.sync_failed hheartbeat hfetch haccepts, hpending,
          ReplicationReplica.applyEntries_lastAppliedIndex, hcount] at hafter
        omega

/-- In runs whose master entries have distinct time stamps, the position is right in every state
exactly when no sync stops after it has carried out an entry, and no restart finds a local log that
is longer or shorter than the position. -/
theorem position_exact_iff (rt : Runtime) (store : KvStore) (actions : List Action)
    (h : Guarded (step rt) DistinctTimestamps (start store) actions) :
    Always (step rt) PositionExact (start store) actions ↔
      Guarded (step rt) (KeepsPosition rt) (start store) actions := by
  have hstart : InPlace (start store) :=
    ⟨List.nodup_nil, rfl, Nat.le_refl _, Finset.empty_subset _⟩
  exact always_iff_guarded (fun _ _ hs hdistinct hkeeps => hs.step hdistinct hkeeps)
    (fun _ hs => hs.exact) (fun _ _ hs _ hkeeps => hs.step_wrong hkeeps) hstart h

/-- A sync carries one entry out, and the replica restarts over a log of one entry. -/
theorem position_exact_iff_restart :
    Always (step .strings) PositionExact (start (.withConfig {}))
      [.append 5 (.delete "a"), .sync {}, .restart (.withConfig {})] :=
  (position_exact_iff .strings (.withConfig {})
      [.append 5 (.delete "a"), .sync {}, .restart (.withConfig {})]
      ⟨List.not_mem_nil, trivial, trivial, trivial⟩).mpr
    ⟨trivial, fun _ _ => .inr ⟨⟨fun h => h, rfl⟩, trivial⟩, rfl, trivial⟩

/-- A write of the replica's own client counts as an entry of the master after a restart. -/
theorem client_write_moves_position :
    Guarded (step .strings) DistinctTimestamps (start (.withConfig {}))
        [.client none (Io.healthy 0) (.listLpush "k" ["v"]), .restart (.withConfig {})] ∧
      ¬ Always (step .strings) PositionExact (start (.withConfig {}))
        [.client none (Io.healthy 0) (.listLpush "k" ["v"]), .restart (.withConfig {})] := by
  refine ⟨⟨trivial, trivial, trivial⟩, fun h => ?_⟩
  exact absurd h.last.count (by decide)

end Replication

end Daikon
