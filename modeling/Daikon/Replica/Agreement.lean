/-
# Daikon.Replica.Agreement -- the replicas of one master agree

Every replica has its own position, and its syncs overlap with those of the others and with the requests
to the master in any way. As long as each batch that was fetched is carried out to its end, all local logs
are beginnings of one list, the master's log without the repeats of time stamps. Two replicas at the same
position have the same log, and the same store as well, if nothing in the log sets an expiry: an expiry is
counted from the clock of the replica, and the clean-up goes by that clock too.

The invariant is per replica, so the number of replicas does not matter: `InStep` says of one replica that
its log is the beginning of the common list up to its position, and that this will be so again when the
batch which it holds has been carried out. A step of another node only makes the master's log longer, and
`InStep` is stable under that. Agreement of two replicas is then read off from two instances.

Two things are asked. At the start the replicas have no log and stores alike up to their events (`Blank`);
along the run nobody else writes to a replica, no replica is started anew, and no batch ends at an error
(`Undisturbed`). A client of a replica or a restart is outside of that on purpose: either gives the replica
entries, or a position, that the master's log does not account for, as `client_write_moves_position` in
`Daikon.Replica.Replication` shows.
-/
import Daikon.Recovery.Expiry
import Daikon.Replica.Catchup
import Daikon.Replica.Table
import Daikon.Store.Quiet

namespace Daikon

open Lib.Run (Always Guarded)

/-! ## Stores without expiries -/

namespace KvStore

/-- No key has an expiry. -/
def Permanent (s : KvStore) : Prop := ∀ k, s.expiry k = none

theorem Permanent.write {s : KvStore} (h : s.Permanent) (rt : Runtime) (now : Nat) {w : Write}
    (hw : w.Timeless) : (s.write rt now w).2.Permanent := by
  intro k
  have hnone : w.setsExpiry s now k = none := by
    cases w with
    | setWithTtl key value ttl => exact hw.elim
    | expire key ttl => exact hw.elim
    | _ => rfl
  rcases write_expiry rt s now w k with hleft | hleft
  · exact hleft
  · rw [hleft, hnone]
    exact h k

theorem Permanent.writes {rt : Runtime} {calls : List (Nat × Write)} : ∀ {s : KvStore}, s.Permanent →
    (∀ c ∈ calls, c.2.Timeless) → (s.writes rt calls).Permanent := by
  induction calls with
  | nil => exact fun h _ => h
  | cons c calls ih =>
      intro s h htimeless
      exact ih (h.write rt c.1 (htimeless c (by simp))) fun d hd => htimeless d (by simp [hd])

/-- A clean-up finds nothing. -/
theorem Permanent.cleanupExpired {s : KvStore} (h : s.Permanent) (now : Nat) :
    (s.cleanupExpired now).2 = s := by
  have hdue : s.dueKeys now = [] := by
    rw [List.eq_nil_iff_forall_not_mem]
    intro k hk
    obtain ⟨entry, hentry, hdue⟩ := mem_dueKeys_iff.mp hk
    have hexpiry : entry.expiresAt = none := by
      have hk := h k
      rw [expiry, expiryIn, hentry] at hk
      exact hk
    rw [ValueWithTTL.due, hexpiry] at hdue
    cases hdue
  rw [cleanupExpired_eq, hdue]
  rfl

end KvStore

/-! ## A replica as a copy of a log -/

namespace ReplicationReplica

/-- Entries as calls, at a clock that matters to none of them if none sets an expiry. -/
def timelessCalls (entries : List WalEntry) : List (Nat × Write) :=
  entries.map fun entry => (0, entry.operation.raw)

/-- Entries that are all carried out leave the store that their calls leave, but for the events. -/
theorem applyEntries_quiet {rt : Runtime} {io : SyncIo} {entries : List (WalEntry × Nat)} :
    ∀ {r : ReplicationReplica} {t : KvStore}, (applyEntries rt io entries r).1 = .ok () →
      (∀ entry ∈ entries.map Prod.fst, entry.operation.raw.Timeless) → r.store.quiet = t.quiet →
      (applyEntries rt io entries r).2.store.quiet
        = (t.writes rt (timelessCalls (entries.map Prod.fst))).quiet := by
  induction entries with
  | nil => exact fun _ _ h => h
  | cons e entries ih =>
      intro r t hok htimeless hquiet
      obtain ⟨entry, n⟩ := e
      have hentry : entry.operation.raw.Timeless := htimeless entry (by simp)
      have hstore := applyWalEntry_store rt (io.now n) (io.disk n) r entry
      rw [applyEntries] at hok ⊢
      rcases hr : r.applyWalEntry rt (io.now n) (io.disk n) entry with ⟨e | _, r'⟩ <;> rw [hr] at hok hstore
      · cases hok
      · refine ih hok (fun e he => htimeless e (by simp [he])) ?_
        have hleft := KvStore.write_quiet rt r.store (io.now n) 0 hentry
        have hright := KvStore.write_quiet rt t 0 0 hentry
        rw [hquiet, hright] at hleft
        show r'.store.quiet = _
        rw [show r'.store = _ from hstore]
        exact (congrArg Prod.snd hleft).symm

/-- The local log is the beginning of the other without the repeats, and where no entry of it sets an expiry
the store is what these entries leave of the first one. -/
structure Copy (rt : Runtime) (base : KvStore) (log : List WalEntry) (r : ReplicationReplica) : Prop where
  following : Replication.Following { master := log, replica := r }
  store : (∀ entry ∈ r.wal, entry.operation.raw.Timeless) →
    r.store.quiet = (base.writes rt (timelessCalls r.wal)).quiet

variable {rt : Runtime} {base : KvStore} {log : List WalEntry} {r : ReplicationReplica}

theorem Copy.extend (h : Copy rt base log r) {log' : List WalEntry} (hlog : log <+: log') :
    Copy rt base log' r := by
  refine ⟨⟨⟨h.following.length, ?_⟩, h.following.timestamps⟩, h.store⟩
  obtain ⟨rest, rfl⟩ := hlog
  have hposition := h.following.position
  have hwal := h.following.wal
  simp only [Lib.Reader.total, Replication.firstOfTimestamp, Lib.firstBy_append] at hposition hwal ⊢
  rw [List.take_append_of_le_length hposition]
  exact hwal

theorem Copy.sync (h : Copy rt base log r) {io : SyncIo} (hok : ∃ n, (r.sync rt io log).1 = .ok n) :
    Copy rt base log (r.sync rt io log).2 := by
  refine ⟨h.following.sync hok, fun htimeless => ?_⟩
  obtain ⟨⟨hwal, -, -⟩, -⟩ := sync_applied hok
  obtain ⟨hheartbeat, hfetch, haccepts⟩ := sync_ok_iff.mp hok
  have happlied := (applyEntries_ok_iff rt io (r.pending log) r).mpr haccepts
  have hstore : (r.sync rt io log).2.store = (applyEntries rt io (r.pending log) r).2.store := by
    rw [sync_of_reachable hheartbeat hfetch]
    rcases applyEntries rt io (r.pending log) r with ⟨_ | _, r'⟩ <;> rfl
  rw [hwal] at htimeless ⊢
  have hbefore := h.store fun e he => htimeless e (List.mem_append_left _ he)
  rw [hstore, timelessCalls, List.map_append, KvStore.writes_append]
  exact applyEntries_quiet happlied (fun e he => htimeless e (List.mem_append_right _ he)) hbefore

theorem Copy.sweep (h : Copy rt base log r) (hbase : base.Permanent) (now : Nat) :
    Copy rt base log { r with store := (r.store.cleanupExpired now).2 } := by
  refine ⟨⟨⟨h.following.length, h.following.wal⟩, h.following.timestamps⟩, fun htimeless => ?_⟩
  have hquiet := h.store htimeless
  -- the store has the entries of one without expiries
  have hpermanent : r.store.Permanent := by
    have hwrites : (base.writes rt (timelessCalls r.wal)).Permanent := by
      refine hbase.writes fun c hc => ?_
      obtain ⟨entry, hentry, rfl⟩ := List.mem_map.mp hc
      exact htimeless entry hentry
    intro k
    have hk := hwrites k
    rw [show (base.writes rt (timelessCalls r.wal)).expiry k
      = (base.writes rt (timelessCalls r.wal)).quiet.expiry k from rfl, ← hquiet] at hk
    exact hk
  simp only
  rw [hpermanent.cleanupExpired]
  exact hquiet

end ReplicationReplica

/-! ## All of them -/

open ReplicationReplica (Copy)

/-- What the replica has noted of its sync is true of it, and of some earlier length of the log. -/
def SyncStage.Consistent (rt : Runtime) (base : KvStore) (log : List WalEntry) (r : ReplicationReplica) :
    SyncStage → Prop
  | .idle => True
  | .beaten lastApplied => lastApplied = r.lastAppliedIndex
  | .fetched lastApplied entries totalEntries =>
      lastApplied = r.lastAppliedIndex ∧ ∃ seen, seen <+: log ∧ Copy rt base seen r ∧
        entries = getWalEntries seen lastApplied 100 ∧ totalEntries = seen.length

namespace Member

/-- The error that the loop over what was fetched would stop with. -/
def batchError (rt : Runtime) (io : SyncIo) (m : Member) : Option KvStoreError :=
  match m.stage with
  | .fetched lastApplied entries total =>
      Peer.failure (Peer.applyFetched rt io lastApplied entries total m.replica).1
  | _ => none

/-- The replica is a copy of the master's log as far as it has come, and so it will be when the batch that
it has fetched is carried out. -/
structure InStep (rt : Runtime) (base : KvStore) (log : List WalEntry) (m : Member) : Prop where
  copy : Copy rt base log m.replica
  stage : m.stage.Consistent rt base log m.replica

theorem InStep.extend {rt : Runtime} {base : KvStore} {log log' : List WalEntry} {m : Member}
    (h : InStep rt base log m) (hlog : log <+: log') : InStep rt base log' m := by
  refine ⟨h.copy.extend hlog, ?_⟩
  have hstage := h.stage
  revert hstage
  cases m.stage with
  | idle => exact id
  | beaten lastApplied => exact id
  | fetched lastApplied entries total =>
      rintro ⟨hposition, seen, hseen, hrest⟩
      exact ⟨hposition, seen, hseen.trans hlog, hrest⟩

end Member

namespace Cluster

variable {ι : Type} {rt : Runtime} {c : SnapshotCodec} {net : Net}

/-- Nobody but the syncs gets to the logs of the replicas, and a batch is carried out to its end. -/
def Undisturbed (rt : Runtime) (s : Cluster ι) : Action ι → Prop
  | .apply i io => (s.members i).batchError rt io = none
  | .client .. | .restart .. => False
  | _ => True

/-- The replicas begin without a log over stores that differ in their events only, without expiries. -/
structure Blank (base : KvStore) (s : Cluster ι) : Prop where
  permanent : base.Permanent
  replica : ∀ i, ∃ store : KvStore, store.quiet = base.quiet ∧ (s.members i).replica = .new store []
  idle : ∀ i, (s.members i).stage = .idle

/-- Two replicas have the one log up to their positions; at one position their stores are the same. -/
structure Agree (s : Cluster ι) : Prop where
  log : ∀ i, (s.members i).replica.wal
    = (Replication.firstOfTimestamp s.master.server.wal).take (s.members i).replica.lastAppliedIndex
  beginning : ∀ i j, (s.members i).replica.lastAppliedIndex ≤ (s.members j).replica.lastAppliedIndex →
    (s.members i).replica.wal <+: (s.members j).replica.wal
  store : ∀ i j, (s.members i).replica.lastAppliedIndex = (s.members j).replica.lastAppliedIndex →
    (∀ entry ∈ (s.members i).replica.wal, entry.operation.raw.Timeless) →
    (s.members i).replica.store.quiet = (s.members j).replica.store.quiet

/-- The invariant: every replica is in step with the master's log. -/
def AllInStep (rt : Runtime) (base : KvStore) (s : Cluster ι) : Prop :=
  ∀ i, (s.members i).InStep rt base s.master.server.wal

theorem AllInStep.agree {base : KvStore} {s : Cluster ι} (h : AllInStep rt base s) : s.Agree := by
  have hlog : ∀ i, (s.members i).replica.wal = (Replication.firstOfTimestamp s.master.server.wal).take
      (s.members i).replica.lastAppliedIndex := fun i => (h i).copy.following.wal
  refine ⟨hlog, fun i j hle => ?_, fun i j heq htimeless => ?_⟩
  · rw [hlog i, hlog j]
    exact List.take_prefix_take_left hle
  · have hwal : (s.members i).replica.wal = (s.members j).replica.wal := by rw [hlog i, hlog j, heq]
    rw [(h i).copy.store htimeless, (h j).copy.store (hwal ▸ htimeless), hwal]

variable [DecidableEq ι]

/-- A step of one replica, over a log that may have grown. -/
theorem AllInStep.setMember {base : KvStore} {s : Cluster ι} (h : AllInStep rt base s) {i : ι} {m : Member}
    (master : App) (hlog : s.master.server.wal <+: master.server.wal)
    (hm : m.InStep rt base master.server.wal) :
    AllInStep rt base ({ s with master }.setMember i m) :=
  forall_setMember (P := fun _ m => m.InStep rt base master.server.wal) hm
    fun j _ => (h j).extend hlog

theorem AllInStep.step {base : KvStore} (hbase : base.Permanent) {s : Cluster ι}
    (h : AllInStep rt base s) {a : Action ι} (ha : Undisturbed rt s a) :
    AllInStep rt base (s.step rt c net a) := by
  cases a with
  | master io req => exact fun i => (h i).extend (App.handle_log req)
  | reboot store => exact h
  | heartbeat i e =>
      simp only [Cluster.step]
      cases (s.members i).stage with
      | idle =>
          have hserver := Peer.beat_server rt c net e (s.members i).toPeer s.master
          refine h.setMember _ (by rw [hserver]) ⟨?_, ?_⟩
          · rw [hserver]
            exact (h i).copy
          · simp only
            split <;> trivial
      | _ => exact h
  | fetch i e =>
      simp only [Cluster.step]
      have hstage := (h i).stage
      revert hstage
      cases (s.members i).stage with
      | beaten lastApplied =>
          rintro rfl
          have hmaster := Peer.fetch_master rt c net e (s.members i).toPeer
            (s.members i).replica.lastAppliedIndex s.master
          refine h.setMember _ (by rw [hmaster]) ⟨?_, ?_⟩
          · rw [hmaster]
            exact (h i).copy
          · simp only
            rw [hmaster]
            by_cases hanswered : e.Answered net (s.members i).toPeer s.master ∧
                PageServed s.master.server.wal.length (s.members i).replica.lastAppliedIndex
            · rw [Peer.fetch_answered rt c net e _ _ s.master hanswered.1 hanswered.2]
              exact ⟨rfl, _, List.prefix_rfl, (h i).copy, rfl, rfl⟩
            · obtain ⟨error, herror⟩ := Peer.fetch_unanswered rt c net e (s.members i).toPeer
                (s.members i).replica.lastAppliedIndex s.master hanswered
              rw [herror]
              trivial
      | _ => exact fun _ => h
  | apply i io =>
      simp only [Cluster.step]
      have hstage := (h i).stage
      simp only [Undisturbed, Member.batchError] at ha
      revert hstage ha
      cases (s.members i).stage with
      | fetched lastApplied entries total =>
          rintro hok ⟨rfl, seen, hseen, hcopy, rfl, rfl⟩
          simp only [Peer.applyFetched_eq] at hok ⊢
          refine h.setMember s.master List.prefix_rfl ⟨?_, trivial⟩
          refine (hcopy.sync ?_).extend hseen
          rcases hr : ((s.members i).replica.sync rt { io with heartbeat := none, fetch := none } seen).1 with
            error | n
          · rw [hr] at hok
            cases hok
          · exact ⟨n, rfl⟩
      | _ => exact fun _ _ => h
  | client i runtime io req => exact ha.elim
  | sweep i now =>
      refine h.setMember s.master List.prefix_rfl ⟨(h i).copy.sweep hbase now, ?_⟩
      have hstage := (h i).stage
      revert hstage
      simp only
      cases (s.members i).stage with
      | idle => exact id
      | beaten lastApplied => exact id
      | fetched lastApplied entries total =>
          rintro ⟨hposition, seen, hseen, hcopy, hrest⟩
          exact ⟨hposition, seen, hseen, hcopy.sweep hbase now, hrest⟩
  | restart i store => exact ha.elim

/-- Two replicas of a master without a secret. -/
def openCluster : Cluster Bool where
  master := { secretMaster with master := some { heartbeatTimeoutSecs := 30 } }
  members := twoReplicas.members

end Cluster

end Daikon
