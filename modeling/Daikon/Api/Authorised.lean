/-
# Daikon.Api.Authorised -- what a request without the API key can change

With a key configured, the handlers that check it answer 401 and do nothing. Those that do not check
it are the reads, the replication endpoints, which have a secret of their own or none, and the poll
for messages. `only_authorised_changes_iff` says which of them leave the data alone whatever the
clock, the disk and the master do: all but a poll that finds messages and the sync of a replica.

What counts as data is said by `Untouched`: the entries of the store, the log, the snapshot files and the
messages that wait for subscribers. The master's table of replicas is left out, since a heartbeat is checked
against the secret of the replication and not against the key.

The theorem quantifies over the environment inside, for one request at one state: without the key the
request is harmless if and only if no clock, disk or master makes it touch the data. The direction that
needs an example builds the master's log that lets the sync do harm (`newDelete`). Which route checks the
key is read off the route table of `Daikon.Api.Routes`, whatever the guide says of it.
-/
import Daikon.Api.Routes
import Daikon.Replica.Sync
import Mathlib.Data.Fintype.EquivFin

namespace Daikon

/-- The request carries the key, in either of the two headers. -/
def Headers.Carries (headers : Headers) (key : String) : Prop :=
  headers.xApiKey = some key ∨ headers.authorization.bind stripBearer = some key

theorem requireApiKey_refuses {headers : Headers} {runtime : Option ApiRuntimeConfig} {key : String}
    (hkey : runtime.bind ApiRuntimeConfig.apiKey = some key) (h : ¬ headers.Carries key) :
    ∃ refusal, requireApiKey headers runtime = some refusal := by
  unfold Headers.Carries at h
  push Not at h
  obtain ⟨hx, hbearer⟩ := h
  unfold requireApiKey
  rw [hkey]
  cases hprovided : headers.xApiKey with
  | some value =>
    have hne : some value ≠ some key := fun heq => hx (hprovided.trans heq)
    exact ⟨_, if_neg hne⟩
  | none => exact ⟨_, if_neg hbearer⟩

/-- The store contents, the log, the snapshot files and the message queues are as before. -/
structure Untouched (app app' : App) : Prop where
  store : app'.server.store.contents = app.server.store.contents
  wal : app'.server.wal = app.server.wal
  snapshots : app'.snapshots = app.snapshots
  queues : app'.pubsub.subscribers = app.pubsub.subscribers

theorem Untouched.refl (app : App) : Untouched app app := ⟨rfl, rfl, rfl, rfl⟩

namespace App

variable {rt : Runtime} {c : SnapshotCodec} {app : App} {io : AppIo} {refusal : Response}

/-! ## The handlers that check the key -/

theorem guarded_untouched (h : requireApiKey io.headers app.server.runtime = some refusal)
    (handler : Response × App) : Untouched app (app.guarded io handler).2 := by
  rw [guarded, h]
  exact .refl app

theorem write_untouched (h : requireApiKey io.headers app.server.runtime = some refusal)
    (req : Request) : Untouched app (app.write rt io req).2 := by
  have hhandle : app.server.handle rt io.toIo req = (refusal, app.server) :=
    Server.handle_unauthorized h
  have hnothing : app.server.published.drop app.server.published.length = [] := List.drop_length
  rw [write, hhandle]
  simp only [hnothing]
  exact .refl app

/-! ## The handlers that do not -/

/-- A heartbeat moves the master's table only. -/
theorem replicationHeartbeat_untouched (replicaId : String) (lastAppliedIndex : Nat) :
    Untouched app (app.replicationHeartbeat io replicaId lastAppliedIndex).2 := by
  unfold replicationHeartbeat
  cases app.master with
  | none => exact .refl app
  | some master =>
    simp only
    split
    · split <;> exact ⟨rfl, rfl, rfl, rfl⟩
    · exact .refl app

theorem replicationGetWal_untouched (fromIndex : Nat) (limit : Option Nat) :
    Untouched app (app.replicationGetWal io fromIndex limit).2 := by
  rw [replicationGetWal_snd]
  exact .refl app

theorem replicationListReplicas_untouched : Untouched app (app.replicationListReplicas io).2 := by
  unfold replicationListReplicas
  cases app.master with
  | none => exact .refl app
  | some master => exact ⟨rfl, rfl, rfl, rfl⟩

theorem replicationStatus_untouched : Untouched app app.replicationStatus.2 := by
  unfold replicationStatus
  cases app.replica <;> exact .refl app

theorem pubsubPollMessages_untouched_iff (id : String) (limit : Option String) :
    Untouched app (app.pubsubPollMessages id limit).2 ↔
      pollLimit limit = 0 ∨ app.pubsub.queue id = [] := by
  rw [← PubSub.pollMessages_subscribers_iff]
  exact ⟨Untouched.queues, fun h => ⟨rfl, rfl, rfl, h⟩⟩

/-! ## A sync that changes the log -/

theorem replicationSync_wal {node : ReplicaNode} (hnode : app.replica = some node) :
    (app.replicationSync rt io).2.server.wal
      = ((app.attached node.replica).sync rt io.sync io.masterWal).2.wal := by
  rw [replicationSync, hnode]
  simp only
  split <;> rfl

/-- A master's log whose only new entry, for a replica in this state, deletes a key. -/
def newDelete (r : ReplicationReplica) (timestamp : Nat) : List WalEntry :=
  List.replicate (r.lastAppliedIndex + 1) ⟨timestamp, .delete "k"⟩

theorem pending_newDelete {r : ReplicationReplica} {timestamp : Nat}
    (h : timestamp ∉ r.appliedEntryTimestamps) :
    r.pending (newDelete r timestamp) = [(⟨timestamp, .delete "k"⟩, 0)] := by
  have hbatch : getWalEntries (newDelete r timestamp) r.lastAppliedIndex 100
      = [⟨timestamp, .delete "k"⟩] := by
    have hlength : ¬ r.lastAppliedIndex ≥ (newDelete r timestamp).length := by
      simp [newDelete]
    rw [getWalEntries, if_neg hlength, newDelete, List.drop_replicate, Nat.add_sub_cancel_left]
    rfl
  rw [ReplicationReplica.pending, hbatch, ReplicationReplica.newEntries_cons_of_notMem h]
  rfl

/-- An environment in which nothing fails, for a request with these headers. -/
def calmIo (headers : Headers) : AppIo := { toIo := { Io.healthy 0 with headers } }

/-- An environment in which the master has that entry. -/
def syncIo (headers : Headers) (r : ReplicationReplica) (timestamp : Nat) : AppIo :=
  { calmIo headers with masterWal := newDelete r timestamp }

/-- A replica that syncs with that master appends an entry to the log. -/
theorem replicationSync_touches {node : ReplicaNode} (hnode : app.replica = some node)
    (headers : Headers) {timestamp : Nat}
    (h : timestamp ∉ node.replica.appliedEntryTimestamps) :
    ¬ Untouched app (app.replicationSync rt
      (syncIo headers (app.attached node.replica) timestamp)).2 := by
  have hpending := pending_newDelete (r := app.attached node.replica) h
  have hok : ∃ n, ((app.attached node.replica).sync rt {}
      (newDelete (app.attached node.replica) timestamp)).1 = .ok n := by
    refine ReplicationReplica.sync_ok_iff.mpr ⟨rfl, rfl, ?_⟩
    rw [hpending, ReplicationReplica.Accepts, Lib.Run.guarded_cons]
    exact ⟨⟨id, rfl⟩, trivial⟩
  have hwal := (ReplicationReplica.sync_applied hok).1.wal
  rw [hpending] at hwal
  intro huntouched
  have hsame : app.server.wal ++ [(⟨timestamp, .delete "k"⟩ : WalEntry)] = app.server.wal :=
    hwal.symm.trans ((replicationSync_wal hnode).symm.trans huntouched.wal)
  exact absurd hsame (by simp)

end App

/-! ## The handlers of the route table -/

/-- Without the key, nothing comes of the request: it is no poll that finds a message, and no sync
of a replica. -/
def HttpRequest.Harmless (app : App) : HttpRequest → Prop
  | .pubsubPollMessages id limit => App.pollLimit limit = 0 ∨ app.pubsub.queue id = []
  | .replicationSync => app.replica = none
  | _ => True

/-- With a key configured, and whatever the environment does: a request that does not carry the key
leaves the data untouched exactly if it is harmless. -/
theorem only_authorised_changes_iff (rt : Runtime) (c : SnapshotCodec) (app : App)
    (headers : Headers) (req : HttpRequest) {key : String}
    (hkey : app.server.runtime.bind ApiRuntimeConfig.apiKey = some key)
    (hcarries : ¬ headers.Carries key) :
    (∀ io : AppIo, io.headers = headers → Untouched app (app.handle rt c io req).2) ↔
      req.Harmless app := by
  constructor
  · intro h
    cases req with
    | pubsubPollMessages id limit =>
      exact (App.pubsubPollMessages_untouched_iff id limit).mp (h (App.calmIo headers) rfl)
    | replicationSync =>
      by_contra hreplica
      obtain ⟨node, hnode⟩ := Option.ne_none_iff_exists'.mp hreplica
      obtain ⟨timestamp, hfresh⟩ :=
        Infinite.exists_notMem_finset node.replica.appliedEntryTimestamps
      exact App.replicationSync_touches hnode headers hfresh (h _ rfl)
    | _ => trivial
  · rintro h io rfl
    obtain ⟨refusal, hrefusal⟩ := requireApiKey_refuses hkey hcarries
    cases req with
    | write req => exact App.write_untouched hrefusal req
    | pitrCreateSnapshot | pitrCleanupOldSnapshots _ | pubsubSubscribe _ | pubsubUnsubscribe _ _
    | pubsubPublish _ _ | listLrange _ _ _ | listLlen _ | hashHget _ _ | hashHmget _ _
    | hashHgetall _ | hashHkeys _ | hashHvals _ | hashHlen _ | hashHexists _ _
    | getKeyspaceConfig => exact App.guarded_untouched hrefusal _
    | replicationHeartbeat id index => exact App.replicationHeartbeat_untouched id index
    | replicationGetWal index limit => exact App.replicationGetWal_untouched index limit
    | replicationListReplicas => exact App.replicationListReplicas_untouched
    | replicationStatus => exact App.replicationStatus_untouched
    | replicationSync =>
      rw [App.handle, App.replicationSync, show app.replica = none from h]
      exact .refl app
    | pubsubPollMessages id limit => exact (App.pubsubPollMessages_untouched_iff id limit).mpr h
    | _ => exact .refl app

/-- A server with an API key, one subscriber and one unread message. -/
def keyedApp : App where
  server := { store := .new, runtime := some ⟨some "secret", true, 1000⟩ }
  pubsub := (((({} : PubSub).subscribe "news" "subscriber").2).publish 5 "news" "hello").2

theorem only_authorised_changes_iff_delete :
    Untouched keyedApp (keyedApp.handle .strings (.plain []) (App.calmIo {})
      (.write (.deleteValue "k"))).2 :=
  (only_authorised_changes_iff .strings (.plain []) keyedApp {} (.write (.deleteValue "k")) rfl
    (by simp [Headers.Carries])).mpr trivial (App.calmIo {}) rfl

/-- The same server as a replica that has applied nothing. -/
def keyedReplica : App :=
  { keyedApp with replica := some ⟨"replica", "http://master", .new .new []⟩ }

/-- Without a header, the poll takes the message away, and the sync appends to the log. -/
theorem poll_and_sync_unauthorised :
    (∀ key, ¬ Headers.Carries {} key) ∧
      ¬ Untouched keyedApp (keyedApp.handle .strings (.plain []) (App.calmIo {})
        (.pubsubPollMessages "subscriber" none)).2 ∧
      ¬ Untouched keyedReplica (keyedReplica.handle .strings (.plain [])
        { App.calmIo {} with masterWal := [⟨1, .set "k" "v" none⟩] } .replicationSync).2 := by
  refine ⟨fun key => by simp [Headers.Carries], fun h => ?_, fun h => ?_⟩
  · exact absurd ((App.pubsubPollMessages_untouched_iff "subscriber" none).mp h)
      (by decide +kernel)
  · exact absurd h.wal (by decide +kernel)

end Daikon
