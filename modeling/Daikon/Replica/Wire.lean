/-
# Daikon.Replica.Wire -- a sync over HTTP (`replication.rs`)

A sync is two requests to the master, a heartbeat and a fetch, and then the loop over the entries that
came back. The requests carry the replica's token, go to the handlers of the master's server, and come
back as JSON, or do not. `sync_over_http` says that this is the sync of `Daikon.Replica.State` over the
master's log: what the two requests decide is where it stops.

An exchange can fail on either side of the master: a request that does not get there leaves the master as it
was, an answer that is lost leaves it changed. Hence `Exchange` has two errors, and `beat_master` says that
the table has the heartbeat in the second case. Statuses, error texts and the fields of the bodies are those
of the source, and `decodeWalResponse_written` reads back the page that the handler wrote.

The position is a machine word on the wire and the master may panic over it, so a fetch is answered only
where the page is served (`PageServed`). The theorem has no other condition: for every exchange it names the
error, if any, with which each of the two requests ends.
-/
import Daikon.Api.Routes
import Daikon.Replica.Paging
import Daikon.Wal.Document

namespace Daikon

/-- A replica, with the token it sends. -/
structure Peer extends ReplicaNode where
  authToken : Option String := none

/-- What the HTTP client adds. -/
structure Net where
  /-- A header value as the master reads it, where it arrives and is text. -/
  header : String → Option String := some
  /-- The reason phrase of a status. -/
  reason : Nat → String := fun _ => ""
  /-- The text of the error of parsing a body. -/
  parseError : String := ""

/-- One request to the master: what the master's environment decides while it serves it, and the error of
the client if the request does not get there, or the answer does not get back. -/
structure Exchange where
  io : AppIo
  unsent : Option String := none
  unanswered : Option String := none
  /-- The error of the client where the server drops the connection. -/
  dropped : String := ""

/-- The request at the master's server: the answer as the client has it. -/
def Exchange.send (rt : Runtime) (c : SnapshotCodec) (e : Exchange) (headers : Headers) (req : HttpRequest)
    (master : App) : Except String Response × App :=
  match e.unsent with
  | some error => (.error error, master)
  | none =>
      let r := master.handle rt c { e.io with headers } req
      (match e.unanswered with
        | some error => .error error
        | none => if r.1.status = 0 then .error e.dropped else .ok r.1,
        r.2)

/-- `StatusCode::is_success`. -/
def Response.isSuccess (response : Response) : Bool := 200 ≤ response.status && response.status < 300

/-- The body of an answer to a fetch. -/
def decodeWalResponse : Body → Option (List WalEntry × Nat)
  | .json doc =>
      match doc.written with
      | .obj fields => do
          return (← Serde.field "entries" (Serde.decodeSeq WalEntry.ofJson) fields,
            ← Serde.field "total_entries" Serde.decodeU64 fields)
      | _ => none
  | .text _ => none

namespace Peer

section

variable (net : Net) (peer : Peer)

/-- `with_auth_post` and `with_auth_get`: the headers as they arrive. -/
def withAuth : Headers :=
  { authorization := (peer.authToken.map ("Bearer " ++ ·)).bind net.header }

/-- `send_heartbeat`, from the answer on. -/
def sendHeartbeat : Except String Response → Except KvStoreError Unit
  | .error e => .error (.replicationError s!"Failed to send heartbeat: {e}")
  | .ok response =>
      if response.status = 401 then
        .error (.replicationError
          "Heartbeat rejected: authentication failed. Check KV_REPLICATION_SECRET.")
      else if ¬ response.isSuccess then
        .error (.replicationError
          s!"Heartbeat failed with status: {response.status} {net.reason response.status}")
      else .ok ()

/-- `fetch_wal_entries`, from the answer on. -/
def fetchWalEntries : Except String Response → Except KvStoreError (List WalEntry × Nat)
  | .error e => .error (.replicationError s!"Failed to fetch WAL entries: {e}")
  | .ok response =>
      if response.status = 401 then
        .error (.replicationError
          "WAL fetch rejected: authentication failed. Check KV_REPLICATION_SECRET.")
      else if ¬ response.isSuccess then
        .error (.replicationError
          s!"Fetch WAL failed with status: {response.status} {net.reason response.status}")
      else
        match decodeWalResponse response.body with
        | some r => .ok r
        | none => .error (.replicationError s!"Failed to parse WAL response: {net.parseError}")

end

/-- The rest of `sync`, over what was fetched; `lastApplied` was read as the sync began. -/
def applyFetched (rt : Runtime) (io : SyncIo) (lastApplied : Nat) (entries : List WalEntry)
    (totalEntries : Nat) (r : ReplicationReplica) : Except KvStoreError Nat × ReplicationReplica :=
  match entries with
  | [] =>
      (.ok 0, { r with
        lagEntries := totalEntries - lastApplied
        lastSuccessfulSyncUnixSecs := some io.finishedAt
        lastSyncDurationMs := some io.durationMs })
  | entry :: entries =>
      match r.syncLoop rt io 0 (entry :: entries) ∅ 0 with
      | (.error e, r) => (.error e, r)
      | (.ok appliedCount, r) =>
          let r := { r with lastAppliedIndex := r.lastAppliedIndex + appliedCount }
          (.ok appliedCount, r.finish io totalEntries)

/-- The heartbeat of a sync: its outcome, and the master after it. -/
def beat (rt : Runtime) (c : SnapshotCodec) (net : Net) (e : Exchange) (peer : Peer) (master : App) :
    Except KvStoreError Unit × App :=
  let r := e.send rt c (peer.withAuth net)
    (.replicationHeartbeat peer.replicaId peer.replica.lastAppliedIndex) master
  (sendHeartbeat net r.1, r.2)

/-- The fetch of a sync. -/
def fetch (rt : Runtime) (c : SnapshotCodec) (net : Net) (e : Exchange) (peer : Peer) (fromIndex : Nat)
    (master : App) : Except KvStoreError (List WalEntry × Nat) × App :=
  let r := e.send rt c (peer.withAuth net) (.replicationGetWal fromIndex (some 100)) master
  (fetchWalEntries net r.1, r.2)

/-- `sync`, with nothing else going on in between. -/
def syncOver (rt : Runtime) (c : SnapshotCodec) (net : Net) (heartbeat pull : Exchange) (io : SyncIo)
    (peer : Peer) (master : App) : (Except KvStoreError Nat × ReplicationReplica) × App :=
  let b := peer.beat rt c net heartbeat master
  match b.1 with
  | .error e => ((.error e, peer.replica), b.2)
  | .ok () =>
      let f := peer.fetch rt c net pull peer.replica.lastAppliedIndex b.2
      match f.1 with
      | .error e => ((.error e, peer.replica), f.2)
      | .ok (entries, total) =>
          (applyFetched rt io peer.replica.lastAppliedIndex entries total peer.replica, f.2)

end Peer

/-! ## What the master answers -/

/-- The master takes the token that the replica sends. -/
def App.Admits (net : Net) (peer : Peer) (master : App) : Prop :=
  ∃ m, master.master = some m ∧
    m.verifyAuth ((peer.withAuth net).authorization.bind stripBearer) = true

instance (net : Net) (peer : Peer) (master : App) : Decidable (master.Admits net peer) :=
  decidable_of_iff ((master.master.elim false fun m =>
      m.verifyAuth ((peer.withAuth net).authorization.bind stripBearer)) = true) <| by
    unfold App.Admits
    cases master.master <;> simp

/-- The request gets there and the answer back, the token is taken and the log can be read. -/
structure Exchange.Answered (e : Exchange) (net : Net) (peer : Peer) (master : App) : Prop where
  sent : e.unsent = none
  received : e.unanswered = none
  admitted : master.Admits net peer
  readable : e.io.readAll = none

/-- The position is a 64-bit number, and the page there can be computed without a panic. -/
def PageServed (len position : Nat) : Prop := position < 2 ^ 64 ∧ PageFits len position 100

instance (len position : Nat) : Decidable (PageServed len position) := inferInstanceAs (Decidable (_ ∧ _))

/-- The master with the replica in its table. -/
def App.register (master : App) (now : Nat) (peer : Peer) : App :=
  { master with master := master.master.map fun m =>
      (m.registerReplica now (.ok master.server.wal) peer.replicaId peer.replica.lastAppliedIndex).2 }

theorem registerReplica_authToken (m : ReplicationMaster) (now : Nat)
    (readAll : Except KvStoreError (List WalEntry)) (replicaId : String) (lastAppliedIndex : Nat) :
    (m.registerReplica now readAll replicaId lastAppliedIndex).2.authToken = m.authToken := by
  unfold ReplicationMaster.registerReplica
  cases readAll <;> rfl

theorem decodeWalResponse_written (entries : List WalEntry) (total : Nat) :
    decodeWalResponse (.json (.obj [("entries", .arr (entries.map WalEntry.toJson)),
      ("total_entries", .int total)])) = some (entries, total) := by
  have hentries := Serde.decodeSeq_encodeSeq WalEntry.ofJson_toJson entries
  simp only [Serde.encodeSeq, Json.written_arr, List.map_map] at hentries
  simp [decodeWalResponse, Serde.field, Serde.lookup, hentries, WalOperation.decodeNat]

namespace Peer

section

variable (rt : Runtime) (c : SnapshotCodec) (net : Net) (e : Exchange) (peer : Peer) (fromIndex : Nat)
  (master : App)

/-- A heartbeat that reaches the master: it is registered, or refused and nothing is changed. -/
theorem handle_heartbeat (io : AppIo) :
    let r := master.handle rt c { io with headers := peer.withAuth net }
      (.replicationHeartbeat peer.replicaId peer.replica.lastAppliedIndex)
    (master.Admits net peer ∧ io.readAll = none) ∧ r.1.status = 200 ∧
        r.2 = master.register (io.now 0) peer ∨
      ¬ (master.Admits net peer ∧ io.readAll = none) ∧ (r.1.status = 401 ∨ r.1.status = 500) ∧
        r.2 = master := by
  obtain ⟨server, pubsub, snapshots, _ | m, replica⟩ := master
  · refine .inr ⟨fun h => ?_, .inr rfl, rfl⟩
    obtain ⟨⟨m, hm, -⟩, -⟩ := h
    cases hm
  · by_cases hauth : m.verifyAuth ((peer.withAuth net).authorization.bind stripBearer) = true
    · cases io.readAll with
      | none =>
          refine .inl ⟨⟨⟨m, rfl, hauth⟩, rfl⟩, ?_, ?_⟩ <;>
            simp [App.handle, App.replicationHeartbeat, hauth, App.readAll,
              ReplicationMaster.registerReplica, App.register]
      | some error =>
          refine .inr ⟨fun h => (nomatch h.2), .inr ?_, ?_⟩ <;>
            simp [App.handle, App.replicationHeartbeat, hauth, App.readAll,
              ReplicationMaster.registerReplica]
    · refine .inr ⟨fun h => ?_, .inl ?_, ?_⟩
      · obtain ⟨⟨m', hm, hadmits⟩, -⟩ := h
        cases hm
        exact hauth hadmits
      · simp [App.handle, App.replicationHeartbeat, hauth, App.invalidToken]
      · simp [App.handle, App.replicationHeartbeat, hauth]

/-- A fetch that reaches the master changes nothing, and is given its page or refused. -/
theorem handle_fetch (io : AppIo) :
    let r := master.handle rt c { io with headers := peer.withAuth net }
      (.replicationGetWal fromIndex (some 100))
    r.2 = master ∧
      ((master.Admits net peer ∧ io.readAll = none ∧ PageServed master.server.wal.length fromIndex) ∧
          r.1 = ⟨200, .json (.obj [
            ("entries", .arr ((getWalEntries master.server.wal fromIndex 100).map WalEntry.toJson)),
            ("total_entries", .int master.server.wal.length)])⟩ ∨
        ¬ (master.Admits net peer ∧ io.readAll = none ∧ PageServed master.server.wal.length fromIndex) ∧
          r.1.status ∈ [0, 400, 401, 500]) := by
  refine ⟨App.replicationGetWal_snd _ _ _ _, ?_⟩
  by_cases hbig : 2 ^ 64 ≤ fromIndex
  · refine .inr ⟨fun h => absurd h.2.2.1 (Nat.not_lt.mpr hbig), ?_⟩
    simp only [App.handle, App.replicationGetWal, if_pos (Or.inl hbig)]
    decide
  · have hsmall : ¬ (2 ^ 64 ≤ fromIndex ∨ 2 ^ 64 ≤ (some 100 : Option Nat).getD 100) :=
      fun h => h.elim hbig (by decide)
    simp only [App.handle, App.replicationGetWal, if_neg hsmall]
    obtain ⟨server, pubsub, snapshots, _ | m, replica⟩ := master
    · refine .inr ⟨fun h => ?_, (by decide : 500 ∈ [0, 400, 401, 500])⟩
      obtain ⟨⟨m, hm, -⟩, -⟩ := h
      cases hm
    · by_cases hauth : m.verifyAuth ((peer.withAuth net).authorization.bind stripBearer) = true
      · simp only [hauth, if_true]
        cases io.readAll with
        | some error =>
            refine .inr ⟨fun h => (nomatch h.2.1), ?_⟩
            simp [App.readAll, ReplicationMaster.getWalEntries]
        | none =>
            have hpage := @getWalEntries_hundred server.wal _ (Nat.not_le.mp hbig)
            simp only [App.readAll, Option.getD_some, show UInt64.ofNat 100 = 100 from rfl, hpage]
            by_cases hfits : PageFits server.wal.length fromIndex 100
            · rw [if_pos hfits]
              exact .inl ⟨⟨⟨m, rfl, hauth⟩, trivial, Nat.not_le.mp hbig, hfits⟩, rfl⟩
            · rw [if_neg hfits]
              exact .inr ⟨fun h => hfits h.2.2.2, (by decide : 0 ∈ [0, 400, 401, 500])⟩
      · refine .inr ⟨fun h => ?_, ?_⟩
        · obtain ⟨⟨m', hm, hadmits⟩, -⟩ := h
          cases hm
          exact hauth hadmits
        · simp only [hauth]
          exact (by decide : 401 ∈ [0, 400, 401, 500])

theorem sendHeartbeat_refused {response : Response}
    (h : response.status = 401 ∨ response.status = 500) :
    ∃ error, sendHeartbeat net (.ok response) = .error error := by
  rcases h with h | h <;> simp [sendHeartbeat, Response.isSuccess, h]

theorem fetchWalEntries_refused {response : Response} (h : response.status ∈ [0, 400, 401, 500]) :
    ∃ error, fetchWalEntries net (.ok response) = .error error := by
  simp only [List.mem_cons, List.not_mem_nil, or_false] at h
  rcases h with h | h | h | h <;> simp [fetchWalEntries, Response.isSuccess, h]

/-- The heartbeat goes through exactly when it is answered. -/
theorem beat_ok_iff : (peer.beat rt c net e master).1 = .ok () ↔ e.Answered net peer master := by
  unfold beat Exchange.send
  cases hsent : e.unsent with
  | some error => exact iff_of_false (fun h => nomatch h) fun h => (nomatch hsent.symm.trans h.sent)
  | none =>
      cases hreceived : e.unanswered with
      | some error =>
          exact iff_of_false (fun h => nomatch h) fun h => (nomatch hreceived.symm.trans h.received)
      | none =>
          simp only
          rcases handle_heartbeat rt c net peer master e.io with
            ⟨⟨hadmits, hread⟩, hstatus, -⟩ | ⟨hnot, hstatus, -⟩
          · rw [if_neg (by rw [hstatus]; decide)]
            exact iff_of_true (by simp [sendHeartbeat, Response.isSuccess, hstatus])
              ⟨hsent, hreceived, hadmits, hread⟩
          · obtain ⟨error, herror⟩ := sendHeartbeat_refused net hstatus
            rw [if_neg (by rcases hstatus with h | h <;> rw [h] <;> decide)]
            refine iff_of_false (fun h => ?_) fun h => hnot ⟨h.admitted, h.readable⟩
            rw [herror] at h
            cases h

/-- The master notes a heartbeat that gets there, whether the answer gets back or not. -/
theorem beat_master : (peer.beat rt c net e master).2
    = if e.unsent = none ∧ master.Admits net peer ∧ e.io.readAll = none then
        master.register (e.io.now 0) peer else master := by
  unfold beat Exchange.send
  cases hsent : e.unsent with
  | some error => rw [if_neg fun h => nomatch h.1]
  | none =>
      have hmaster := handle_heartbeat rt c net peer master e.io
      cases hreceived : e.unanswered <;> simp only <;>
        rcases hmaster with ⟨hyes, -, hafter⟩ | ⟨hnot, -, hafter⟩
      · rw [if_pos ⟨trivial, hyes⟩, hafter]
      · rw [if_neg fun h => hnot h.2, hafter]
      · rw [if_pos ⟨trivial, hyes⟩, hafter]
      · rw [if_neg fun h => hnot h.2, hafter]

theorem fetch_master : (peer.fetch rt c net e fromIndex master).2 = master := by
  unfold fetch Exchange.send
  cases e.unsent with
  | some error => rfl
  | none =>
      have hmaster := (handle_fetch rt c net peer fromIndex master e.io).1
      cases e.unanswered <;> exact hmaster

/-- A fetch that is answered brings the page at the replica's position and the length of the log. -/
theorem fetch_answered (h : e.Answered net peer master)
    (hserved : PageServed master.server.wal.length fromIndex) :
    (peer.fetch rt c net e fromIndex master).1
      = .ok (getWalEntries master.server.wal fromIndex 100, master.server.wal.length) := by
  rcases (handle_fetch rt c net peer fromIndex master e.io).2 with ⟨-, hanswer⟩ | ⟨hnot, -⟩
  · simp only [fetch, Exchange.send, h.sent, h.received, hanswer]
    simp [fetchWalEntries, Response.isSuccess, decodeWalResponse_written]
  · exact absurd ⟨h.admitted, h.readable, hserved⟩ hnot

theorem fetch_unanswered
    (h : ¬ (e.Answered net peer master ∧ PageServed master.server.wal.length fromIndex)) :
    ∃ error, (peer.fetch rt c net e fromIndex master).1 = .error error := by
  unfold fetch Exchange.send
  cases hsent : e.unsent with
  | some error => exact ⟨_, rfl⟩
  | none =>
      cases hreceived : e.unanswered with
      | some error => exact ⟨_, rfl⟩
      | none =>
          simp only
          rcases (handle_fetch rt c net peer fromIndex master e.io).2 with ⟨hyes, -⟩ | ⟨-, hstatus⟩
          · exact absurd ⟨⟨hsent, hreceived, hyes.1, hyes.2.1⟩, hyes.2.2⟩ h
          · split
            · exact ⟨_, rfl⟩
            · exact fetchWalEntries_refused net hstatus

theorem admits_beat : (peer.beat rt c net e master).2.Admits net peer ↔ master.Admits net peer := by
  rw [beat_master]
  split
  · obtain ⟨server, pubsub, snapshots, _ | m, replica⟩ := master
    · exact Iff.rfl
    · simp only [App.Admits, App.register, Option.map_some, Option.some.injEq, exists_eq_left',
        ReplicationMaster.verifyAuth, registerReplica_authToken]
  · exact Iff.rfl

theorem beat_server : (peer.beat rt c net e master).2.server = master.server := by
  rw [beat_master]
  split <;> rfl

/-- Over a page, the rest of the sync is what `ReplicationReplica.sync` does after its two requests. -/
theorem applyFetched_eq (io : SyncIo) (r : ReplicationReplica) (log : List WalEntry) :
    applyFetched rt io r.lastAppliedIndex (getWalEntries log r.lastAppliedIndex 100) log.length r
      = r.sync rt { io with heartbeat := none, fetch := none } log := by
  have hloop : ∀ (entries : List WalEntry) (n : Nat) (seen : Finset Nat) (count : Nat)
      (r : ReplicationReplica), r.syncLoop rt { io with heartbeat := none, fetch := none } n entries seen count
        = r.syncLoop rt io n entries seen count := by
    intro entries
    induction entries with
    | nil => intro n seen count r; rfl
    | cons entry entries ih =>
        intro n seen count r
        simp only [ReplicationReplica.syncLoop, ih]
  unfold applyFetched ReplicationReplica.sync
  cases getWalEntries log r.lastAppliedIndex 100 with
  | nil => rfl
  | cons entry entries => simp only [hloop]; rfl

/-- The error that a request ends with, if it does. -/
def failure {α : Type} : Except KvStoreError α → Option KvStoreError
  | .error e => some e
  | .ok _ => none

theorem failure_fetch_eq_none_iff :
    failure (peer.fetch rt c net e fromIndex master).1 = none ↔
      e.Answered net peer master ∧ PageServed master.server.wal.length fromIndex := by
  by_cases h : e.Answered net peer master ∧ PageServed master.server.wal.length fromIndex
  · rw [fetch_answered rt c net e peer fromIndex master h.1 h.2]
    exact iff_of_true rfl h
  · obtain ⟨error, herror⟩ := fetch_unanswered rt c net e peer fromIndex master h
    rw [herror]
    exact iff_of_false (fun hnone => nomatch hnone) h

variable (heartbeat pull : Exchange) (io : SyncIo)

/-- A sync over HTTP is the sync over the master's log, with the errors of the two requests; of the
master it changes the table of the replicas and nothing else. The fetch needs a position at which the master
can compute a page. -/
theorem sync_over_http :
    ∃ heartbeatError fetchError : Option KvStoreError,
      (heartbeatError = none ↔ heartbeat.Answered net peer master) ∧
      (fetchError = none ↔ pull.Answered net peer master ∧
        PageServed master.server.wal.length peer.replica.lastAppliedIndex) ∧
      (peer.syncOver rt c net heartbeat pull io master).1
        = peer.replica.sync rt { io with heartbeat := heartbeatError, fetch := fetchError }
            master.server.wal ∧
      (peer.syncOver rt c net heartbeat pull io master).2
        = if heartbeat.unsent = none ∧ master.Admits net peer ∧ heartbeat.io.readAll = none then
            master.register (heartbeat.io.now 0) peer else master := by
  have hmaster := beat_master rt c net heartbeat peer master
  have hbeat := beat_ok_iff rt c net heartbeat peer master
  have hanswered : pull.Answered net peer (peer.beat rt c net heartbeat master).2
      ↔ pull.Answered net peer master :=
    ⟨fun h => ⟨h.sent, h.received, (admits_beat rt c net heartbeat peer master).mp h.admitted, h.readable⟩,
      fun h => ⟨h.sent, h.received, (admits_beat rt c net heartbeat peer master).mpr h.admitted, h.readable⟩⟩
  have hserver := beat_server rt c net heartbeat peer master
  unfold syncOver
  rcases hb : peer.beat rt c net heartbeat master with ⟨_ | ⟨⟩, master'⟩ <;>
    simp only [hb] at hmaster hbeat hanswered hserver ⊢
  · -- the heartbeat ends the sync
    rename_i error
    refine ⟨some error, failure (peer.fetch rt c net pull peer.replica.lastAppliedIndex master').1,
      iff_of_false (fun h => nomatch h) fun h => absurd (hbeat.mpr h) (by simp), ?_, rfl,
      hmaster⟩
    rw [failure_fetch_eq_none_iff, hanswered, hserver]
  · refine ⟨none, failure (peer.fetch rt c net pull peer.replica.lastAppliedIndex master').1,
      iff_of_true rfl (hbeat.mp trivial), ?_, ?_, ?_⟩
    · rw [failure_fetch_eq_none_iff, hanswered, hserver]
    · by_cases hpull : pull.Answered net peer master' ∧
          PageServed master'.server.wal.length peer.replica.lastAppliedIndex
      · have hfetch := fetch_answered rt c net pull peer peer.replica.lastAppliedIndex master' hpull.1 hpull.2
        simp only [hfetch, failure, applyFetched_eq, hserver]
      · obtain ⟨error, herror⟩ :=
          fetch_unanswered rt c net pull peer peer.replica.lastAppliedIndex master' hpull
        simp only [herror, failure]
        rfl
    · have hfetch := fetch_master rt c net pull peer peer.replica.lastAppliedIndex master'
      rw [← hmaster]
      rcases hf : peer.fetch rt c net pull peer.replica.lastAppliedIndex master' with
        ⟨_ | ⟨entries, total⟩, master''⟩ <;>
        rw [hf] at hfetch <;> exact hfetch

end

end Peer

end Daikon
