/-
# Daikon.Replica.Table -- what the master's table says of the replicas

A row of the table is what a replica said of itself at its last heartbeat. The position in it is never
ahead of the replica: a replica never goes back, not even when it is started anew, since its log is as
long as its position or longer. And a replica whose token the master does not take is in no row, and never
carries out anything.

`Ahead` is the order in which a replica goes on, and `Goes` lifts it to the cluster, with the names, tokens
and the secret fixed: every step goes on in this sense (`step_goes`), and a row that was true stays true
along it (`Goes.table`). So the invariant is proved once per kind of change of the table, not per action:
the table is kept, its old rows are marked, or a new row is written.

Clients may do anything to the master but send heartbeats in the name of a replica, for which there is a
condition (`OnlyReplicasBeat`), since the endpoint takes any name from whoever knows the token. The second
result, `unadmitted_untouched`, needs no such condition.
-/
import Daikon.Api.Authorised
import Daikon.Replica.Cluster

namespace Daikon

/-! ## A replica never goes back -/

namespace ReplicationReplica

/-- The log only grows. -/
theorem wal_prefix_applyEntries (rt : Runtime) (io : SyncIo) (entries : List (WalEntry × Nat)) :
    ∀ r : ReplicationReplica, r.wal <+: (applyEntries rt io entries r).2.wal := by
  induction entries with
  | nil => intro r; exact List.prefix_rfl
  | cons e entries ih =>
      intro r
      obtain ⟨entry, n⟩ := e
      rw [applyEntries]
      unfold applyWalEntry
      rcases applyOperation rt (io.now n) r.store entry.operation with ⟨e | _, store⟩
      · exact List.prefix_rfl
      · cases io.disk n with
        | some e => exact List.prefix_rfl
        | none =>
            refine (List.prefix_append r.wal [entry]).trans ?_
            exact ih (remember { r with store, carriedOut := _, wal := r.wal ++ [entry] } _)

/-- The replica is further on, and no further than its log. -/
structure Ahead (r r' : ReplicationReplica) : Prop where
  position : r.lastAppliedIndex ≤ r'.lastAppliedIndex
  log : r.wal.length ≤ r'.wal.length
  within : r.lastAppliedIndex ≤ r.wal.length → r'.lastAppliedIndex ≤ r'.wal.length

theorem Ahead.refl (r : ReplicationReplica) : Ahead r r := ⟨le_rfl, le_rfl, id⟩

theorem syncLoop_ahead (rt : Runtime) (io : SyncIo) (entries : List WalEntry) (r : ReplicationReplica) :
    Ahead r (r.syncLoop rt io 0 entries ∅ 0).2 ∧
      ∀ count, (r.syncLoop rt io 0 entries ∅ 0).1 = .ok count →
        (r.syncLoop rt io 0 entries ∅ 0).2.lastAppliedIndex = r.lastAppliedIndex ∧
          (r.syncLoop rt io 0 entries ∅ 0).2.wal.length = r.wal.length + count := by
  rw [syncLoop_eq rt io entries 0 ∅ 0 r (Finset.empty_subset _)]
  have hlog := (wal_prefix_applyEntries rt io (r.newEntries 0 entries) r).length_le
  have hindex := applyEntries_lastAppliedIndex rt io (r.newEntries 0 entries) r
  refine ⟨⟨hindex.ge, hlog, fun h => hindex.trans_le (h.trans hlog)⟩, fun count hcount => ⟨hindex, ?_⟩⟩
  rcases hr : applyEntries rt io (r.newEntries 0 entries) r with ⟨e | _, r'⟩
  · rw [hr] at hcount
    cases hcount
  · have happlied := applyEntries_applied (r := r) (show (applyEntries rt io (r.newEntries 0 entries) r).1
      = .ok () by rw [hr])
    rw [hr] at hcount happlied
    cases hcount
    rw [happlied.wal, List.length_append, List.length_map, Nat.zero_add]

end ReplicationReplica

namespace Peer

open ReplicationReplica (Ahead)

theorem applyFetched_ahead (rt : Runtime) (io : SyncIo) (lastApplied : Nat) (entries : List WalEntry)
    (total : Nat) (r : ReplicationReplica) :
    Ahead r (applyFetched rt io lastApplied entries total r).2 := by
  unfold applyFetched
  cases entries with
  | nil => exact ⟨le_rfl, le_rfl, id⟩
  | cons entry entries =>
      obtain ⟨hahead, hcount⟩ := ReplicationReplica.syncLoop_ahead rt io (entry :: entries) r
      simp only
      rcases hr : r.syncLoop rt io 0 (entry :: entries) ∅ 0 with ⟨e | count, r'⟩ <;> rw [hr] at hahead hcount
      · exact hahead
      · obtain ⟨hindex, hlog⟩ := hcount count rfl
        simp only at hindex hlog
        refine ⟨?_, ?_, fun h => ?_⟩ <;> simp only [ReplicationReplica.finish] <;> omega

end Peer

/-! ## What a request to the master does to its table and its log -/

namespace App

variable {rt : Runtime} {c : SnapshotCodec} {app : App} {io : AppIo}

/-- But for a heartbeat, a request leaves the table alone or marks the replicas whose heartbeat is old. -/
theorem handle_master (rt : Runtime) (c : SnapshotCodec) (app : App) (io : AppIo) {req : HttpRequest}
    (h : ∀ replicaId lastAppliedIndex, req ≠ .replicationHeartbeat replicaId lastAppliedIndex) :
    (app.handle rt c io req).2.master = app.master ∨
      ∃ m, app.master = some m ∧
        (app.handle rt c io req).2.master = some (m.getReplicasInfo (io.now 0)).2 := by
  have hguarded : ∀ handler : Response × App, handler.2.master = app.master →
      (app.guarded io handler).2.master = app.master := by
    intro handler hhandler
    unfold guarded
    cases requireApiKey io.headers app.server.runtime with
    | some refusal => rfl
    | none => exact hhandler
  cases req with
  | replicationHeartbeat replicaId lastAppliedIndex => exact absurd rfl (h replicaId lastAppliedIndex)
  | replicationListReplicas =>
      simp only [handle, replicationListReplicas]
      cases hmaster : app.master with
      | none => exact .inl hmaster
      | some m => exact .inr ⟨m, rfl, rfl⟩
  | replicationGetWal fromIndex limit =>
      left
      simp only [handle, replicationGetWal_snd]
  | replicationSync =>
      left
      simp only [handle, replicationSync]
      cases app.replica with
      | none => rfl
      | some node =>
          simp only
          split <;> rfl
  | replicationStatus =>
      left
      simp only [handle, replicationStatus]
      cases app.replica <;> rfl
  | pitrCreateSnapshot =>
      refine .inl (hguarded _ ?_)
      simp only
      split <;> rfl
  | pitrCleanupOldSnapshots maxAgeSecs =>
      refine .inl (hguarded _ ?_)
      simp only
      split <;> rfl
  | pubsubSubscribe channel =>
      refine .inl (hguarded _ ?_)
      simp only
      split <;> rfl
  | pubsubPublish channel message =>
      refine .inl (hguarded _ ?_)
      simp only
      split <;> rfl
  | pubsubUnsubscribe _ _ | listLrange _ _ _ | listLlen _ | hashHget _ _ | hashHmget _ _
  | hashHgetall _ | hashHkeys _ | hashHvals _ | hashHlen _ | hashHexists _ _ | getKeyspaceConfig =>
      exact .inl (hguarded _ rfl)
  | _ => exact .inl rfl

theorem sync_log (r : ReplicationReplica) (sync : SyncIo) (log : List WalEntry) :
    r.wal <+: (r.sync rt sync log).2.wal := by
  by_cases hreach : sync.heartbeat = none ∧ sync.fetch = none
  · have hlog := ReplicationReplica.wal_prefix_applyEntries rt sync (r.pending log) r
    rw [ReplicationReplica.sync_of_reachable hreach.1 hreach.2]
    rcases hr : ReplicationReplica.applyEntries rt sync (r.pending log) r with ⟨_ | _, r'⟩ <;>
      rw [hr] at hlog <;> exact hlog
  · rw [(ReplicationReplica.sync_of_unreachable rt r log hreach).2]

/-- A request appends to the log, and does nothing else to it. -/
theorem handle_log (req : HttpRequest) :
    app.server.wal <+: (app.handle rt c io req).2.server.wal := by
  have hkept : ∀ app' : App, app'.server.wal = app.server.wal → app.server.wal <+: app'.server.wal :=
    fun app' h => by rw [h]
  have hguarded : ∀ handler : Response × App, handler.2.server.wal = app.server.wal →
      app.server.wal <+: (app.guarded io handler).2.server.wal := by
    intro handler hhandler
    unfold guarded
    cases requireApiKey io.headers app.server.runtime with
    | some refusal => exact List.prefix_rfl
    | none => exact hkept _ hhandler
  cases req with
  | write req =>
      simp only [handle, write]
      rw [Server.handle_wal]
      exact List.prefix_append _ _
  | replicationHeartbeat id index => exact hkept _ (replicationHeartbeat_untouched id index).wal
  | replicationGetWal index limit => exact hkept _ (replicationGetWal_untouched index limit).wal
  | replicationListReplicas => exact hkept _ replicationListReplicas_untouched.wal
  | replicationStatus => exact hkept _ replicationStatus_untouched.wal
  | replicationSync =>
      cases hnode : app.replica with
      | none =>
          simp only [handle, replicationSync, hnode]
          exact List.prefix_rfl
      | some node =>
          simp only [handle]
          rw [replicationSync_wal hnode]
          exact sync_log (app.attached node.replica) io.sync io.masterWal
  | pitrCreateSnapshot | pitrCleanupOldSnapshots _ | pubsubSubscribe _ | pubsubPublish _ _ =>
      refine hguarded _ ?_
      simp only
      split <;> rfl
  | pubsubUnsubscribe _ _ | listLrange _ _ _ | listLlen _ | hashHget _ _ | hashHmget _ _
  | hashHgetall _ | hashHkeys _ | hashHvals _ | hashHlen _ | hashHexists _ _ | getKeyspaceConfig =>
      exact hguarded _ rfl
  | _ => exact List.prefix_rfl

end App

/-! ## The rows of the table -/

/-- The row is what was true of a log of some length up to this one; but for the mark of an old heartbeat. -/
def ReplicaInfo.Reports (info : ReplicaInfo) (logLength : Nat) : Prop :=
  (∃ length ≤ logLength, info.lag = length - info.lastAppliedIndex) ∧
    (info.status = .disconnected ∨ info.status = if info.lag > 100 then .lagging else .healthy)

namespace Cluster

open Lib.Run (Always Guarded)
open ReplicationReplica (Ahead)

variable {ι : Type} {rt : Runtime} {c : SnapshotCodec} {net : Net}

/-- The row stands for this replica: its token is taken, and it is at that position or further on. -/
structure RowOf (net : Net) (s : Cluster ι) (id : String) (info : ReplicaInfo) (i : ι) : Prop where
  name : (s.members i).replicaId = id
  admitted : s.master.Admits net (s.members i).toPeer
  notAhead : info.lastAppliedIndex ≤ (s.members i).replica.lastAppliedIndex

/-- Every row of the table is of a replica, and was true when it was written. -/
def TableHolds (net : Net) (s : Cluster ι) : Prop :=
  ∀ m, s.master.master = some m → ∀ id info, m.replicas[id]? = some info →
    (∃ i, RowOf net s id info i) ∧ info.Reports s.master.server.wal.length

/-- No client sends heartbeats in the name of replicas. -/
def OnlyReplicasBeat : Action ι → Prop
  | .master _ req => ∀ id index, req ≠ .replicationHeartbeat id index
  | _ => True

/-- Just started: nobody in the table, and every replica at the end of its log and idle. -/
structure Started (s : Cluster ι) : Prop where
  table : ∀ m, s.master.master = some m → m.replicas = ∅
  position : ∀ i, (s.members i).replica.lastAppliedIndex = (s.members i).replica.wal.length
  idle : ∀ i, (s.members i).stage = .idle

/-! ### What every step keeps -/

/-- The replicas keep their names and tokens and go on; the master keeps its secret and its log. -/
structure Goes (s s' : Cluster ι) : Prop where
  name : ∀ i, (s'.members i).replicaId = (s.members i).replicaId
  token : ∀ i, (s'.members i).authToken = (s.members i).authToken
  ahead : ∀ i, Ahead (s.members i).replica (s'.members i).replica
  secret : s'.master.master.map ReplicationMaster.authToken
    = s.master.master.map ReplicationMaster.authToken
  log : s.master.server.wal.length ≤ s'.master.server.wal.length

theorem Goes.refl (s : Cluster ι) : Goes s s :=
  ⟨fun _ => rfl, fun _ => rfl, fun _ => .refl _, rfl, le_rfl⟩

theorem admits_congr {master master' : App} {peer peer' : Peer} (htoken : peer'.authToken = peer.authToken)
    (hsecret : master'.master.map ReplicationMaster.authToken
      = master.master.map ReplicationMaster.authToken) :
    master'.Admits net peer' ↔ master.Admits net peer := by
  have hadmits : ∀ (app : App) (p : Peer), app.Admits net p ↔
      ∃ secret, app.master.map ReplicationMaster.authToken = some secret ∧
        ReplicationMaster.verifyAuth { heartbeatTimeoutSecs := 0, authToken := secret }
          (((p.authToken.map ("Bearer " ++ ·)).bind net.header).bind stripBearer) = true := by
    intro app p
    unfold App.Admits
    constructor
    · rintro ⟨m, hm, hauth⟩
      exact ⟨m.authToken, by rw [hm]; rfl, hauth⟩
    · rintro ⟨secret, hm, hauth⟩
      obtain ⟨m, hm', rfl⟩ := Option.map_eq_some_iff.mp hm
      exact ⟨m, hm', hauth⟩
  rw [hadmits, hadmits, htoken, hsecret]

theorem Goes.row {s s' : Cluster ι} (h : Goes s s') {id : String} {info : ReplicaInfo} {i : ι}
    (hrow : RowOf net s id info i) : RowOf net s' id info i :=
  ⟨(h.name i).trans hrow.name, (admits_congr (h.token i) h.secret).mpr hrow.admitted,
    hrow.notAhead.trans (h.ahead i).position⟩

theorem reports_mono {info : ReplicaInfo} {n m : Nat} (h : info.Reports n) (hle : n ≤ m) : info.Reports m := by
  obtain ⟨⟨length, hlength, hlag⟩, hstatus⟩ := h
  exact ⟨⟨length, hlength.trans hle, hlag⟩, hstatus⟩

/-- A table that is kept stays right. -/
theorem Goes.table {s s' : Cluster ι} (h : Goes s s') (htable : TableHolds net s)
    (hsame : s'.master.master = s.master.master) : TableHolds net s' := by
  intro m hm id info hinfo
  obtain ⟨⟨i, hrow⟩, hreports⟩ := htable m (hsame ▸ hm) id info hinfo
  exact ⟨⟨i, h.row hrow⟩, reports_mono hreports h.log⟩

/-- So does one whose old rows are marked. -/
theorem Goes.table_aged {s s' : Cluster ι} (h : Goes s s') (htable : TableHolds net s)
    {m : ReplicationMaster} {now : Nat} (hm : s.master.master = some m)
    (haged : s'.master.master = some (m.getReplicasInfo now).2) : TableHolds net s' := by
  intro m' hm' id info hinfo
  obtain rfl : (m.getReplicasInfo now).2 = m' := Option.some.inj (haged.symm.trans hm')
  simp only [ReplicationMaster.getReplicasInfo, Std.ExtTreeMap.getElem?_map] at hinfo
  obtain ⟨old, hold, hage⟩ := Option.map_eq_some_iff.mp hinfo
  obtain ⟨⟨i, hrow⟩, hreports⟩ := htable m hm id old hold
  have hreports' := reports_mono hreports h.log
  unfold ReplicationMaster.age at hage
  split at hage <;> subst hage
  · exact ⟨⟨i, h.row ⟨hrow.name, hrow.admitted, hrow.notAhead⟩⟩, hreports'.1, .inl rfl⟩
  · exact ⟨⟨i, h.row hrow⟩, hreports'⟩

/-- And one with a new row. -/
theorem Goes.table_register {s s' : Cluster ι} (h : Goes s s') (htable : TableHolds net s) {i : ι} {now : Nat}
    (hadmitted : s.master.Admits net (s.members i).toPeer)
    (hregister : s'.master = s.master.register now (s.members i).toPeer) : TableHolds net s' := by
  intro m' hm' id info hinfo
  have ⟨m, hm, _⟩ := hadmitted
  have hm'' : s'.master.master = some (m.registerReplica now (.ok s.master.server.wal)
      (s.members i).replicaId (s.members i).replica.lastAppliedIndex).2 := by
    rw [hregister, App.register, hm]
    rfl
  obtain rfl := Option.some.inj (hm''.symm.trans hm')
  simp only [ReplicationMaster.registerReplica] at hinfo
  rw [Std.ExtTreeMap.getElem?_insert] at hinfo
  split at hinfo
  · next heq =>
      cases hinfo
      have hid : (s.members i).replicaId = id := by simpa using heq
      exact ⟨⟨i, h.row ⟨hid, hadmitted, le_rfl⟩⟩, ⟨_, h.log, rfl⟩, .inr rfl⟩
  · obtain ⟨⟨j, hrow⟩, hreports⟩ := htable m hm id info hinfo
    exact ⟨⟨j, h.row hrow⟩, reports_mono hreports h.log⟩

theorem register_secret (master : App) (now : Nat) (peer : Peer) :
    (master.register now peer).master.map ReplicationMaster.authToken
      = master.master.map ReplicationMaster.authToken := by
  rw [App.register, Option.map_map]
  refine congrArg (fun f => Option.map f master.master) (funext fun m => ?_)
  exact registerReplica_authToken m now _ _ _

theorem beat_goes (rt : Runtime) (c : SnapshotCodec) (net : Net) (e : Exchange) (peer : Peer) (master : App) :
    (peer.beat rt c net e master).2.master.map ReplicationMaster.authToken
        = master.master.map ReplicationMaster.authToken ∧
      (peer.beat rt c net e master).2.server = master.server := by
  refine ⟨?_, Peer.beat_server rt c net e peer master⟩
  rw [Peer.beat_master]
  split
  · exact register_secret master _ peer
  · rfl

section

variable [DecidableEq ι]

/-- A step of one replica alone. -/
theorem goes_setMember {s : Cluster ι} {i : ι} {m : Member} (master : App)
    (hname : m.replicaId = (s.members i).replicaId) (htoken : m.authToken = (s.members i).authToken)
    (hahead : Ahead (s.members i).replica m.replica)
    (hsecret : master.master.map ReplicationMaster.authToken
      = s.master.master.map ReplicationMaster.authToken)
    (hlog : s.master.server.wal.length ≤ master.server.wal.length) :
    Goes s ({ s with master }.setMember i m) := by
  have hmember : ∀ j, (m' : Member) → (({ s with master } : Cluster ι).setMember i m).members j = m' →
      m'.replicaId = (s.members j).replicaId ∧ m'.authToken = (s.members j).authToken ∧
        Ahead (s.members j).replica m'.replica := by
    rintro j m' rfl
    exact forall_setMember (P := fun j m => m.replicaId = (s.members j).replicaId ∧
      m.authToken = (s.members j).authToken ∧ Ahead (s.members j).replica m.replica)
      ⟨hname, htoken, hahead⟩ (fun j _ => ⟨rfl, rfl, .refl _⟩) j
  exact ⟨fun j => (hmember j _ rfl).1, fun j => (hmember j _ rfl).2.1, fun j => (hmember j _ rfl).2.2,
    hsecret, hlog⟩

theorem serve_log (rt : Runtime) (srv : Server) (r : Io × Request) :
    srv.wal.length ≤ (srv.serve rt r).wal.length := by
  rw [show (srv.serve rt r).wal = srv.wal ++ (srv.effects rt r.1 r.2).filterMap Effect.logged from
    Server.handle_wal rt srv r.1 r.2, List.length_append]
  exact Nat.le_add_right _ _

theorem step_goes (rt : Runtime) (c : SnapshotCodec) (net : Net) {s : Cluster ι} {a : Action ι}
    (hbeats : OnlyReplicasBeat a)
    (hwithin : ∀ i, (s.members i).replica.lastAppliedIndex ≤ (s.members i).replica.wal.length) :
    Goes s (s.step rt c net a) := by
  cases a with
  | master io req =>
      refine ⟨fun _ => rfl, fun _ => rfl, fun _ => .refl _, ?_, (App.handle_log req).length_le⟩
      rcases App.handle_master rt c s.master io hbeats with h | ⟨m, hm, h⟩
      · exact congrArg _ h
      · simp only [step]
        rw [h, hm]
        rfl
  | reboot store =>
      refine ⟨fun _ => rfl, fun _ => rfl, fun _ => .refl _, ?_, le_rfl⟩
      simp only [step, Option.map_map]
      rfl
  | heartbeat i e =>
      simp only [step]
      cases (s.members i).stage with
      | idle =>
          obtain ⟨hsecret, hserver⟩ := beat_goes rt c net e (s.members i).toPeer s.master
          exact goes_setMember _ rfl rfl (.refl _) hsecret (by rw [hserver])
      | _ => exact .refl s
  | fetch i e =>
      simp only [step]
      cases (s.members i).stage with
      | beaten lastApplied =>
          have hmaster := Peer.fetch_master rt c net e (s.members i).toPeer lastApplied s.master
          exact goes_setMember _ rfl rfl (.refl _) (by rw [hmaster]) (by rw [hmaster])
      | _ => exact .refl s
  | apply i io =>
      simp only [step]
      cases (s.members i).stage with
      | fetched lastApplied entries total =>
          exact goes_setMember s.master rfl rfl
            (Peer.applyFetched_ahead rt io lastApplied entries total _) rfl le_rfl
      | _ => exact .refl s
  | client i runtime io req =>
      have hlog := serve_log rt
        { store := (s.members i).replica.store, wal := (s.members i).replica.wal, runtime } (io, req)
      exact goes_setMember s.master rfl rfl ⟨le_rfl, hlog, fun h => h.trans hlog⟩ rfl le_rfl
  | sweep i now => exact goes_setMember s.master rfl rfl ⟨le_rfl, le_rfl, id⟩ rfl le_rfl
  | restart i store =>
      exact goes_setMember s.master rfl rfl ⟨hwithin i, le_rfl, fun _ => le_rfl⟩ rfl le_rfl

/-- The invariant: the table is right, and no replica is ahead of its log. -/
structure Tabled (net : Net) (s : Cluster ι) : Prop where
  table : TableHolds net s
  within : ∀ i, (s.members i).replica.lastAppliedIndex ≤ (s.members i).replica.wal.length

theorem Tabled.step {s : Cluster ι} (h : Tabled net s) {a : Action ι} (hbeats : OnlyReplicasBeat a) :
    Tabled net (s.step rt c net a) := by
  have hgoes := step_goes rt c net hbeats h.within
  refine ⟨?_, fun i => (hgoes.ahead i).within (h.within i)⟩
  cases a with
  | master io req =>
      rcases App.handle_master rt c s.master io hbeats with hsame | ⟨m, hm, haged⟩
      · exact hgoes.table h.table hsame
      · exact hgoes.table_aged h.table hm haged
  | reboot store =>
      intro m hm id info hinfo
      simp only [Cluster.step] at hm
      obtain ⟨m', -, rfl⟩ := Option.map_eq_some_iff.mp hm
      simp at hinfo
  | heartbeat i e =>
      revert hgoes
      simp only [Cluster.step]
      cases (s.members i).stage with
      | idle =>
          intro hgoes
          simp only at hgoes ⊢
          have hmaster := Peer.beat_master rt c net e (s.members i).toPeer s.master
          split at hmaster
          · next hreach => exact hgoes.table_register h.table hreach.2.1 hmaster
          · exact hgoes.table h.table (congrArg App.master hmaster)
      | _ => exact fun _ => h.table
  | fetch i e =>
      revert hgoes
      simp only [Cluster.step]
      cases (s.members i).stage with
      | beaten lastApplied =>
          exact fun hgoes => hgoes.table h.table
            (congrArg App.master (Peer.fetch_master rt c net e (s.members i).toPeer lastApplied s.master))
      | _ => exact fun _ => h.table
  | apply i io =>
      revert hgoes
      simp only [Cluster.step]
      cases (s.members i).stage with
      | fetched lastApplied entries total => exact fun hgoes => hgoes.table h.table rfl
      | _ => exact fun _ => h.table
  | client i runtime io req => exact hgoes.table h.table rfl
  | sweep i now => exact hgoes.table h.table rfl
  | restart i store => exact hgoes.table h.table rfl

/-- In every run in which only replicas send heartbeats, with any loss of messages, any clients and any
restarts: each row of the master's table is a report of a replica whose token is taken, with a position that
is not ahead of the replica and the lag behind some length that the log had by then. -/
theorem table_conservative (rt : Runtime) (c : SnapshotCodec) (net : Net) (s : Cluster ι) (hs : Started s)
    (actions : List (Action ι)) (hbeats : ∀ a ∈ actions, OnlyReplicasBeat a) :
    Always (step rt c net) (TableHolds net) s actions := by
  have hstart : Tabled net s := by
    refine ⟨fun m hm id info hinfo => ?_, fun i => (hs.position i).le⟩
    rw [hs.table m hm] at hinfo
    simp at hinfo
  exact Lib.Run.Always.mono (fun t (ht : Tabled net t) => ht.table)
    ((Lib.Run.guarded_true.and_forall hbeats).always (fun t a ht ha => ht.step ha.2) hstart)

/-- A master with the secret `s`. -/
def secretMaster : App where
  server := { store := .withConfig {}, wal := [WalEntry.new 5 (.delete "a")] }
  master := some { heartbeatTimeoutSecs := 30, authToken := some "s" }

/-- Two replicas without a log, one with the secret and one without. -/
def twoReplicas : Cluster Bool where
  master := secretMaster
  members i :=
    { replicaId := if i then "with" else "without", masterUrl := "http://master"
      replica := .new (.withConfig {}) [], authToken := if i then some "s" else none }

theorem twoReplicas_started : Started twoReplicas :=
  ⟨fun _ hm => by cases hm; rfl, fun _ => rfl, fun _ => rfl⟩

/-- An exchange that gets through. -/
def calmExchange : Exchange := { io := App.calmIo {} }

theorem table_conservative_twoReplicas :
    Always (step .strings (.plain []) {}) (TableHolds {}) twoReplicas
      [.heartbeat true calmExchange, .fetch true calmExchange, .apply true {},
        .master (App.calmIo {}) .replicationListReplicas] :=
  table_conservative .strings (.plain []) {} twoReplicas twoReplicas_started _
    (by simp [OnlyReplicasBeat])

/-! ## Replicas without the secret -/

/-- A client of the replica, its clean-up or its restart. -/
def Own (i : ι) : Action ι → Prop
  | .client j _ _ _ | .sweep j _ | .restart j _ => j = i
  | _ => False

theorem handle_secret (app : App) (io : AppIo) (req : HttpRequest) :
    (app.handle rt c io req).2.master.map ReplicationMaster.authToken
      = app.master.map ReplicationMaster.authToken := by
  by_cases hbeats : ∀ id index, req ≠ .replicationHeartbeat id index
  · rcases App.handle_master rt c app io hbeats with h | ⟨m, hm, h⟩
    · exact congrArg _ h
    · rw [h, hm]
      rfl
  · push Not at hbeats
    obtain ⟨id, index, rfl⟩ := hbeats
    simp only [App.handle, App.replicationHeartbeat]
    cases hm : app.master with
    | none => rw [hm]
    | some m =>
        simp only
        split
        · split <;> simp [registerReplica_authToken]
        · rw [hm]

/-- The master's secret is never changed. -/
theorem step_secret (s : Cluster ι) (a : Action ι) :
    (s.step rt c net a).master.master.map ReplicationMaster.authToken
      = s.master.master.map ReplicationMaster.authToken := by
  cases a with
  | master io req => exact handle_secret s.master io req
  | reboot store => simp only [step, Option.map_map]; rfl
  | heartbeat i e =>
      simp only [step]
      split
      · exact (beat_goes rt c net e _ s.master).1
      · rfl
  | fetch i e =>
      simp only [step]
      split
      · exact congrArg (fun app : App => app.master.map ReplicationMaster.authToken)
          (Peer.fetch_master rt c net e _ _ s.master)
      · rfl
  | apply i io =>
      simp only [step]
      split <;> rfl
  | client i runtime io req => rfl
  | sweep i now => rfl
  | restart i store => rfl

/-- Nor are the names and the tokens of the replicas. -/
theorem step_token (s : Cluster ι) (a : Action ι) (i : ι) :
    ((s.step rt c net a).members i).authToken = (s.members i).authToken := by
  have hset : ∀ (master : App) (j : ι) (m : Member), m.authToken = (s.members j).authToken →
      (({ s with master }.setMember j m).members i).authToken = (s.members i).authToken := by
    intro master j m hm
    exact forall_setMember (P := fun i m => m.authToken = (s.members i).authToken) hm
      (fun _ _ => rfl) i
  cases a with
  | master io req => rfl
  | reboot store => rfl
  | heartbeat j e =>
      simp only [step]
      split
      · exact hset _ j _ rfl
      · rfl
  | fetch j e =>
      simp only [step]
      split
      · exact hset _ j _ rfl
      · rfl
  | apply j io =>
      simp only [step]
      split
      · exact hset s.master j _ rfl
      · rfl
  | client j runtime io req => exact hset s.master j _ rfl
  | sweep j now => exact hset s.master j _ rfl
  | restart j store => exact hset s.master j _ rfl

/-- Its token is not taken, and it is idle. -/
structure Shut (net : Net) (i : ι) (s : Cluster ι) : Prop where
  refused : ¬ s.master.Admits net (s.members i).toPeer
  idle : (s.members i).stage = .idle

/-- A step that is not its own leaves a replica without the secret alone. -/
theorem Shut.kept {s : Cluster ι} {i : ι} (h : Shut net i s) (a : Action ι) (hown : ¬ Own i a) :
    (s.step rt c net a).members i = s.members i := by
  have hother : ∀ (master : App) (j : ι) (m : Member), (j = i → m = s.members i) →
      ({ s with master }.setMember j m).members i = s.members i := by
    intro master j m hm
    by_cases hj : i = j
    · subst hj
      rw [setMember_self]
      exact hm rfl
    · exact setMember_of_ne _ _ hj
  cases a with
  | master io req => rfl
  | reboot store => rfl
  | heartbeat j e =>
      simp only [step]
      split
      · next hstage =>
          refine hother _ j _ ?_
          rintro rfl
          -- the master refuses the heartbeat
          have hrefused : (Peer.beat rt c net e (s.members j).toPeer s.master).1 ≠ .ok () := fun hok =>
            h.refused ((Peer.beat_ok_iff rt c net e _ s.master).mp hok).admitted
          rcases hb : (Peer.beat rt c net e (s.members j).toPeer s.master).1 with error | ⟨⟩
          · simp only
            rw [← hstage]
          · exact absurd hb hrefused
      · rfl
  | fetch j e =>
      simp only [step]
      split
      · next lastApplied hstage =>
          refine hother _ j _ ?_
          rintro rfl
          rw [h.idle] at hstage
          cases hstage
      · rfl
  | apply j io =>
      simp only [step]
      split
      · next lastApplied entries total hstage =>
          refine hother s.master j _ ?_
          rintro rfl
          rw [h.idle] at hstage
          cases hstage
      · rfl
  | client j runtime io req => exact hother s.master j _ fun hj => absurd hj hown
  | sweep j now => exact hother s.master j _ fun hj => absurd hj hown
  | restart j store => exact hother s.master j _ fun hj => absurd hj hown

theorem Shut.step {s : Cluster ι} {i : ι} (h : Shut net i s) (a : Action ι) :
    Shut net i (s.step rt c net a) := by
  refine ⟨fun hadmits => h.refused ((admits_congr (step_token s a i) (step_secret s a)).mp hadmits), ?_⟩
  by_cases hown : Own i a
  · cases a with
    | client j runtime io req =>
        cases hown
        simp only [Cluster.step, setMember_self]
        exact h.idle
    | sweep j now =>
        cases hown
        simp only [Cluster.step, setMember_self]
        exact h.idle
    | restart j store =>
        cases hown
        simp only [Cluster.step, setMember_self]
    | _ => exact hown.elim
  · rw [h.kept a hown]
    exact h.idle

/-- In every run, whatever else happens: a replica whose token the master does not take is changed by its own
clients, clean-ups and restarts and by nothing else. -/
theorem unadmitted_untouched (rt : Runtime) (c : SnapshotCodec) (net : Net) (s : Cluster ι) (i : ι)
    (hrefused : ¬ s.master.Admits net (s.members i).toPeer) (hidle : (s.members i).stage = .idle)
    (actions : List (Action ι)) :
    Guarded (step rt c net)
      (fun t a => Own i a ∨ (t.step rt c net a).members i = t.members i) s actions := by
  refine Lib.Run.guarded_true.imp (fun t a (ht : Shut net i t) _ => ht.step a) (fun t a ht _ => ?_)
    ⟨hrefused, hidle⟩
  by_cases hown : Own i a
  · exact .inl hown
  · exact .inr (ht.kept a hown)

theorem unadmitted_untouched_without :
    Guarded (step .strings (.plain []) {})
      (fun t a => Own false a ∨ (t.step .strings (.plain []) {} a).members false = t.members false)
      twoReplicas [.heartbeat false calmExchange, .fetch false calmExchange, .apply false {}] :=
  unadmitted_untouched .strings (.plain []) {} twoReplicas false (by decide) rfl _

end

end Cluster

end Daikon
