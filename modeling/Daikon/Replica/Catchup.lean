/-
# Daikon.Replica.Catchup -- when a replica catches up, and when it never does

The position counts entries that were applied, and the next page begins at the position. An entry that
repeats a time stamp is skipped and not counted, so every such entry leaves the position one further behind
what was read. After a hundred of them a page holds nothing new, and the replica stops for good
(`stuck_forever`). With a master that is written to no more this decides whether the replica catches up
(`catches_up_iff`); where no time stamp comes twice it takes a sync for every hundred entries.

A sync is here a page of the reader of `Daikon.Lib.Reader` that counts what it keeps, and the three results
are the library's, about its reader, at the master's log and its time stamps. What this module adds is that
the replica is that reader: `Following.sync_position` moves the position as the reader moves it, and
`Following.caughtUp_iff` says when the reader has seen everything.

The master is quiet in `catches_up_iff` while the replica catches up; before that requests and syncs come in
any order. `stuck_forever` has no such condition. It holds against any further requests, syncs and clients,
but not past a restart, since what stops the replica is a full page of old time stamps in front of it, and a
page once full stays full.
-/
import Daikon.Lib.Reader
import Daikon.Replica.Replication

namespace Daikon

namespace Replication

open Lib (firstBy keys)
open Lib.Reader (advance total distinct)
open Lib.Run (Always Guarded)

/-! ## One sync, and one after another -/

theorem Following.position {s : Replication} (h : Following s) :
    s.replica.lastAppliedIndex ≤ total WalEntry.timestamp s.master := by
  have hwal := congrArg List.length h.wal
  rw [h.length, List.length_take] at hwal
  exact hwal.le.trans (Nat.min_le_right _ _)

/-- A sync that goes through is a page of the reader that counts what it keeps. -/
theorem Following.sync_position {s : Replication} (h : Following s) {rt : Runtime} {io : SyncIo}
    (hok : ∃ n, (s.replica.sync rt io s.master).1 = .ok n) :
    (s.step rt (.sync io)).replica.lastAppliedIndex
      = advance WalEntry.timestamp 100 s.master s.replica.lastAppliedIndex := by
  have hposition := (ReplicationReplica.sync_applied hok).2
  have hpending := congrArg List.length
    (ReplicationReplica.map_newEntries s.replica 0
      (getWalEntries s.master s.replica.lastAppliedIndex 100))
  rw [List.length_map, h.timestamps, h.wal, ← ReplicationReplica.pending, getWalEntries_eq] at hpending
  rw [← Lib.Reader.length_page]
  exact hposition.trans (congrArg (s.replica.lastAppliedIndex + ·) hpending)

/-- Syncs of a run, one after another. -/
def syncs (ios : List SyncIo) : List Action := ios.map .sync

theorem foldl_syncs {rt : Runtime} (ios : List SyncIo) : ∀ {s : Replication}, Following s →
    Guarded (step rt) (Completes rt) s (syncs ios) →
    Following ((syncs ios).foldl (step rt) s) ∧
      ((syncs ios).foldl (step rt) s).master = s.master ∧
      ((syncs ios).foldl (step rt) s).replica.lastAppliedIndex
        = (advance WalEntry.timestamp 100 s.master)^[ios.length] s.replica.lastAppliedIndex := by
  induction ios with
  | nil => exact fun h _ => ⟨h, rfl, rfl⟩
  | cons io ios ih =>
      intro s h hrun
      obtain ⟨hok, hrest⟩ := hrun
      obtain ⟨hfollowing, hmaster, hposition⟩ := ih (h.sync hok) hrest
      refine ⟨hfollowing, hmaster, ?_⟩
      rw [h.sync_position hok] at hposition
      exact hposition

theorem Following.foldl {rt : Runtime} {actions : List Action} {s : Replication} (h : Following s)
    (hrun : Guarded (step rt) (Completes rt) s actions) : Following (actions.foldl (step rt) s) := by
  refine hrun.foldl (fun s a hs ha => ?_) h
  cases a with
  | append now operation => exact hs.append rt now operation
  | sync io => exact hs.sync ha
  | restart store => exact ha.elim
  | client runtime io req => exact ha.elim

/-- The replica has every entry that does not repeat a time stamp. -/
def CaughtUp (s : Replication) : Prop := s.replica.wal = firstOfTimestamp s.master

theorem Following.caughtUp_iff {s : Replication} (h : Following s) :
    s.CaughtUp ↔ s.replica.lastAppliedIndex = total WalEntry.timestamp s.master := by
  unfold CaughtUp
  constructor
  · intro hwal
    rw [← h.length, hwal]
    rfl
  · intro hposition
    rw [h.wal, hposition]
    exact List.take_length

/-- Every time stamp of the log comes among as many entries as there are time stamps, and 99 more: no
hundred entries in front of the last new time stamp repeat one. -/
def InReach (log : List WalEntry) : Prop :=
  ∀ entry ∈ log, ∃ earlier ∈ log.take ((firstOfTimestamp log).length + 99),
    earlier.timestamp = entry.timestamp

/-- Any run of requests and syncs that go through, then enough syncs and no request: the replica has
caught up exactly when it had before, or every time stamp of the log is in reach. -/
theorem catches_up_iff (rt : Runtime) (store : KvStore) (actions : List Action) (ios : List SyncIo)
    (h : Guarded (step rt) (Completes rt) (start store) (actions ++ syncs ios))
    (henough : (firstOfTimestamp (actions.foldl (step rt) (start store)).master).length
      ≤ (actions.foldl (step rt) (start store)).replica.lastAppliedIndex + ios.length) :
    ((actions ++ syncs ios).foldl (step rt) (start store)).CaughtUp ↔
      (actions.foldl (step rt) (start store)).CaughtUp ∨
        InReach (actions.foldl (step rt) (start store)).master := by
  obtain ⟨hactions, hsyncs⟩ := Lib.Run.guarded_append.mp h
  have hfollowing : Following (actions.foldl (step rt) (start store)) :=
    Following.foldl ⟨⟨rfl, rfl⟩, rfl⟩ hactions
  obtain ⟨hafter, hmaster, hposition⟩ := foldl_syncs ios hfollowing hsyncs
  rw [List.foldl_append, hafter.caughtUp_iff, hfollowing.caughtUp_iff, hmaster, hposition,
    Lib.Reader.iterate_eq_total_iff hfollowing.position henough]
  generalize actions.foldl (step rt) (start store) = s at *
  have hreach := Lib.Reader.distinct_eq_total_iff WalEntry.timestamp s.master
    (total WalEntry.timestamp s.master - 1 + 100)
  rcases Nat.eq_zero_or_pos (total WalEntry.timestamp s.master) with hzero | hpos
  · -- nothing was ever logged
    have hcaught : s.replica.lastAppliedIndex = total WalEntry.timestamp s.master := by
      have hle := hfollowing.position
      omega
    exact iff_of_true (.inl hcaught) (.inl hcaught)
  · rw [hreach, InReach, show total WalEntry.timestamp s.master - 1 + 100
      = (firstOfTimestamp s.master).length + 99 by simp only [total, firstOfTimestamp] at hpos ⊢; omega]

/-- Three requests in two seconds and a sync; one more sync finds nothing to do. -/
theorem catches_up_iff_sameSecond :
    ((sameSecond ++ syncs [{}]).foldl (step .strings) (start (.withConfig {}))).CaughtUp :=
  (catches_up_iff .strings (.withConfig {}) sameSecond [{}]
    ⟨trivial, trivial, trivial, ⟨2, rfl⟩, ⟨0, rfl⟩, trivial⟩ (by decide)).mpr
      (.inl (by unfold CaughtUp; decide))

/-! ## A replica that stops -/

/-- The next page is full, and all of its time stamps were applied. -/
structure Stuck (s : Replication) : Prop where
  full : s.replica.lastAppliedIndex + 100 ≤ s.master.length
  stale : ∀ entry ∈ (s.master.drop s.replica.lastAppliedIndex).take 100,
    entry.timestamp ∈ s.replica.appliedEntryTimestamps

theorem Stuck.pending {s : Replication} (h : Stuck s) : s.replica.pending s.master = [] := by
  have hnone : (s.replica.pending s.master).map Prod.fst = [] := by
    rw [ReplicationReplica.pending, ReplicationReplica.map_newEntries, getWalEntries_eq,
      Lib.Reader.firstBy_eq_nil_iff]
    exact h.stale
  exact List.map_eq_nil_iff.mp hnone

/-- A sync with nothing to apply changes the lag and the times. -/
theorem sync_of_pending_nil {s : Replication} (h : s.replica.pending s.master = []) (rt : Runtime)
    (io : SyncIo) :
    (s.step rt (.sync io)).replica.lastAppliedIndex = s.replica.lastAppliedIndex ∧
      (s.step rt (.sync io)).replica.carriedOut = s.replica.carriedOut ∧
      (s.step rt (.sync io)).replica.appliedEntryTimestamps = s.replica.appliedEntryTimestamps := by
  by_cases hreach : io.heartbeat = none ∧ io.fetch = none
  · simp only [step]
    rw [ReplicationReplica.sync_of_reachable hreach.1 hreach.2, h]
    exact ⟨rfl, rfl, rfl⟩
  · simp only [step]
    rw [(ReplicationReplica.sync_of_unreachable rt s.replica s.master hreach).2]
    exact ⟨rfl, rfl, rfl⟩

theorem Stuck.step {s : Replication} (h : Stuck s) (rt : Runtime) {a : Action}
    (hrestart : ∀ store, a ≠ .restart store) :
    Stuck (s.step rt a) ∧ (s.step rt a).replica.lastAppliedIndex = s.replica.lastAppliedIndex ∧
      (s.step rt a).replica.carriedOut = s.replica.carriedOut := by
  cases a with
  | append now operation =>
      -- the page is full, so the new entry is behind it
      have hfull := h.full
      refine ⟨⟨?_, ?_⟩, rfl, rfl⟩
      · simp only [Replication.step, List.length_append]
        omega
      · simp only [Replication.step]
        rw [List.drop_append_of_le_length (by omega), List.take_append_of_le_length]
        · exact h.stale
        · rw [List.length_drop]
          omega
  | sync io =>
      obtain ⟨hposition, hcarried, htimestamps⟩ := sync_of_pending_nil h.pending rt io
      refine ⟨⟨?_, ?_⟩, hposition, hcarried⟩
      · rw [hposition]
        exact h.full
      · rw [hposition, htimestamps]
        exact h.stale
  | restart store => exact absurd rfl (hrestart store)
  | client runtime io req => exact ⟨⟨h.full, h.stale⟩, rfl, rfl⟩

/-- A sync that goes through without moving the replica found a page of old time stamps. -/
theorem Stuck.of_sync {s : Replication} {rt : Runtime} {io : SyncIo}
    (hok : ∃ n, (s.replica.sync rt io s.master).1 = .ok n)
    (hstays : (s.step rt (.sync io)).replica.lastAppliedIndex = s.replica.lastAppliedIndex)
    (hfull : s.replica.lastAppliedIndex + 100 ≤ s.master.length) : Stuck s := by
  have hposition := (ReplicationReplica.sync_applied hok).2
  simp only [Replication.step] at hstays
  have hnone : (s.replica.pending s.master).map Prod.fst = [] := by
    rw [List.map_eq_nil_iff, ← List.length_eq_zero_iff]
    omega
  rw [ReplicationReplica.pending, ReplicationReplica.map_newEntries, getWalEntries_eq,
    Lib.Reader.firstBy_eq_nil_iff] at hnone
  exact ⟨hfull, hnone⟩

/-- If a sync goes through without moving the replica, with a hundred entries or more in front of it, then
no request, sync or client of its own moves it any more, until it is restarted. -/
theorem stuck_forever (rt : Runtime) (s : Replication) (io : SyncIo)
    (hok : ∃ n, (s.replica.sync rt io s.master).1 = .ok n)
    (hstays : (s.step rt (.sync io)).replica.lastAppliedIndex = s.replica.lastAppliedIndex)
    (hlag : s.replica.lastAppliedIndex + 100 ≤ s.master.length)
    (actions : List Action) (hrestart : ∀ a ∈ actions, ∀ store, a ≠ .restart store) :
    Always (step rt)
      (fun t => t.replica.lastAppliedIndex = s.replica.lastAppliedIndex ∧
        t.replica.carriedOut = s.replica.carriedOut ∧
        t.replica.lastAppliedIndex + 100 ≤ t.master.length) s actions := by
  have hstuck := Stuck.of_sync hok hstays hlag
  have hstep : ∀ t a, Stuck t ∧ t.replica.lastAppliedIndex = s.replica.lastAppliedIndex ∧
        t.replica.carriedOut = s.replica.carriedOut → True ∧ (∀ store, a ≠ .restart store) →
      Stuck (t.step rt a) ∧ (t.step rt a).replica.lastAppliedIndex = s.replica.lastAppliedIndex ∧
        (t.step rt a).replica.carriedOut = s.replica.carriedOut := by
    rintro t a ⟨ht, hposition, hcarried⟩ ⟨-, ha⟩
    obtain ⟨hstep, hposition', hcarried'⟩ := ht.step rt ha
    exact ⟨hstep, hposition'.trans hposition, hcarried'.trans hcarried⟩
  exact Lib.Run.Always.mono (fun t ht => ⟨ht.2.1, ht.2.2, ht.1.full⟩)
    ((Lib.Run.guarded_true.and_forall hrestart).always hstep ⟨hstuck, rfl, rfl⟩)

/-- The master's log has 101 requests of one second, and the replica has applied the first. -/
def crowdedSecond : Replication where
  master := List.replicate 101 (WalEntry.new 5 (.delete "a"))
  replica := { ReplicationReplica.new (.withConfig {}) [WalEntry.new 5 (.delete "a")] with
    appliedEntryTimestamps := {5} }

theorem stuck_forever_crowdedSecond :
    Always (step .strings)
      (fun t => t.replica.lastAppliedIndex = 1 ∧ t.replica.carriedOut = [] ∧
        t.replica.lastAppliedIndex + 100 ≤ t.master.length)
      crowdedSecond [.append 6 (.delete "b"), .sync {}] :=
  stuck_forever .strings crowdedSecond {} ⟨0, rfl⟩ rfl (by decide) [.append 6 (.delete "b"), .sync {}]
    (by simp)

/-! ## Distinct time stamps -/

/-- Where no time stamp comes twice: after each run of requests and syncs that go through, every further
sync brings the replica a hundred entries on, up to the end of the log. -/
theorem hundred_a_sync (rt : Runtime) (store : KvStore) (actions : List Action) (ios : List SyncIo)
    (h : Guarded (step rt) (Completes rt) (start store) (actions ++ syncs ios))
    (hdistinct :
      ((actions.foldl (step rt) (start store)).master.map WalEntry.timestamp).Nodup) :
    ((actions ++ syncs ios).foldl (step rt) (start store)).replica.wal
      = (actions.foldl (step rt) (start store)).master.take
          ((actions.foldl (step rt) (start store)).replica.lastAppliedIndex + ios.length * 100) := by
  obtain ⟨hactions, hsyncs⟩ := Lib.Run.guarded_append.mp h
  have hfollowing : Following (actions.foldl (step rt) (start store)) :=
    Following.foldl ⟨⟨rfl, rfl⟩, rfl⟩ hactions
  obtain ⟨hafter, hmaster, hposition⟩ := foldl_syncs ios hfollowing hsyncs
  rw [List.foldl_append, hafter.wal, hmaster, hposition, firstOfTimestamp_of_nodup hdistinct]
  have hle : (actions.foldl (step rt) (start store)).replica.lastAppliedIndex
      ≤ (actions.foldl (step rt) (start store)).master.length := by
    have htotal := hfollowing.position
    rwa [total, ← firstOfTimestamp, firstOfTimestamp_of_nodup hdistinct] at htotal
  rw [Lib.Reader.iterate_of_nodup hdistinct _ hle, List.take_eq_take_iff]
  omega

/-- Three requests in three seconds. -/
def threeSeconds : List Action :=
  [.append 5 (.delete "a"), .append 6 (.delete "b"), .append 7 (.delete "c")]

theorem hundred_a_sync_threeSeconds :
    ((threeSeconds ++ syncs [{}]).foldl (step .strings) (start (.withConfig {}))).replica.wal
      = [WalEntry.new 5 (.delete "a"), WalEntry.new 6 (.delete "b"), WalEntry.new 7 (.delete "c")] :=
  hundred_a_sync .strings (.withConfig {}) threeSeconds [{}]
    ⟨trivial, trivial, trivial, ⟨3, rfl⟩, trivial⟩ (by decide)

end Replication

end Daikon
