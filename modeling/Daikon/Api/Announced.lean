/-
# Daikon.Api.Announced -- the events of a request and the messages on Pub/Sub

A handler has to publish the events of its store calls before it answers. `called` is the store after
those calls, so what a request emits is what joins the queue there (`emitted`), whatever its handler does
with it. The handlers of set, delete, expire, persist, clean-up and the pipeline publish; those of
append, getset, mset, Lua and the sync of a replica make calls that report as well, and leave the events
in the queue. `announced_iff` says which requests of a run may be served.

The result is about runs, and the step under it is exact: served with an empty queue, a request leaves an
empty one with everything announced if and only if its handler publishes or its store calls report nothing
(`announced_step`). `Ends` is what all handlers have in common here and is proved route by route. Whether
the calls report is said on the calls and the store before them (`LeavesNothing`), with the events of each
call as `Daikon.Store.Mirror` gives them.

A publish of an event may find no subscriber; announced means given to Pub/Sub, under the two channels of
the event, and what Pub/Sub makes of it is the subject of `Daikon.Api.PubSub`. `appended_event_left` is an
event that waits for the next handler that publishes, and goes out with the delete of another key.
-/
import Daikon.Api.Effects
import Daikon.Api.Routes
import Daikon.Recovery.Expiry
import Daikon.Store.Emits

namespace Daikon

open Lib.Run (Always Guarded always_iff_guarded guarded_true)

/-- The messages of an event. -/
def KeyspaceEvent.messages (event : KeyspaceEvent) : List (String × String) :=
  [("__keyevent__:" ++ event.kind.toString, event.key),
    ("__keyspace__:" ++ event.key, event.kind.toString)]

/-- Pub/Sub takes them: no channel of theirs is empty. -/
theorem KeyspaceEvent.messages_taken {event : KeyspaceEvent} {m : String × String}
    (h : m ∈ event.messages) (p : PubSub) (now : Nat) :
    ∃ count, (p.publish now m.1 m.2).1 = .ok count := by
  have hchannel : m.1 ≠ "" := by
    intro hempty
    have hlength := congrArg String.length hempty
    rcases List.mem_pair.mp h with rfl | rfl <;> simp [String.length_append] at hlength
  unfold PubSub.publish
  rw [if_neg hchannel]
  exact ⟨_, rfl⟩

namespace Server

/-! ## The handlers of writes -/

/-- The store after the store calls of a request that has the API key. -/
def dispatchCalled (rt : Runtime) (srv : Server) (io : Io) : Request → KvStore
  | .cleanupExpired => (srv.store.cleanupExpired (io.now 0)).2
  | .multi => srv.store.multi.2
  | .exec => srv.store.exec.2
  | .discard => srv.store.discard.2
  | .hllPfadd key values => (srv.store.pfadd rt key values).2
  | .hllPfreserve key precision => (srv.store.pfreserve key precision).2
  | .hllPfmerge destination sources => (srv.store.pfmerge destination sources).2
  | .setKeyspaceConfig enabled => srv.store.setKeyspaceNotificationsEnabled enabled
  | .pitrRecoverToTimestamp _ (.ok store) | .pitrRecoverLatestSnapshot (.ok store) => store
  | req => srv.store.writes rt ((dispatchEffects rt srv io req).filterMap Effect.call)

/-- The store after the store calls of a request, before anything is published. -/
def called (rt : Runtime) (srv : Server) (io : Io) (req : Request) : KvStore :=
  match requireApiKey io.headers srv.runtime with
  | some _ => srv.store
  | none => dispatchCalled rt srv io req

/-- The handler ends with the events of the store calls in the queue. -/
structure Leaves (srv : Server) (called : KvStore) (after : Server) : Prop where
  store : after.store = called
  published : after.published = srv.published

/-- The handler publishes all that is in the queue then. -/
structure Announces (srv : Server) (called : KvStore) (after : Server) : Prop where
  store : after.store = { called with pendingKeyspaceEvents := [] }
  published : after.published
    = srv.published ++ called.pendingKeyspaceEvents.flatMap KeyspaceEvent.messages

/-- How a handler ends: one that publishes has announced its events, or it made no store call. -/
inductive Ends (srv : Server) (publishes : Bool) (called : KvStore) (after : Server) : Prop
  | announced (h : Announces srv called after) (hpublishes : publishes = true)
  | left (h : Leaves srv called after) (hidle : publishes = true → called = srv.store)

theorem Ends.unchanged (srv : Server) (publishes : Bool) : Ends srv publishes srv.store srv :=
  .left ⟨rfl, rfl⟩ fun _ => rfl

theorem Ends.of_silent {srv after : Server} {called : KvStore} (hstore : after.store = called)
    (hpublished : after.published = srv.published) : Ends srv false called after :=
  .left ⟨hstore, hpublished⟩ (by simp)

theorem logFirst_ends (srv : Server) (io : Io) (failure : String) (op : WalOperation)
    (publishes : Bool) (call : KvStore → Response × KvStore) :
    Ends srv publishes (if (io.disk 0).isNone then (call srv.store).2 else srv.store)
      (srv.logFirst io failure op publishes call).2 := by
  unfold logFirst append
  cases io.disk 0 with
  | some e => exact Ends.unchanged srv publishes
  | none =>
      cases publishes with
      | false => exact Ends.of_silent rfl rfl
      | true => exact .announced ⟨rfl, rfl⟩ rfl

/-- A write makes the calls of its effects. -/
theorem dispatchCalled_write {rt : Runtime} (srv : Server) (io : Io) {req : Request}
    (h : req.IsWrite) : dispatchCalled rt srv io req
      = srv.store.writes rt ((dispatchEffects rt srv io req).filterMap Effect.call) := by
  cases req with
  | cleanupExpired | multi | exec | discard | hllPfadd _ _ | hllPfreserve _ _ | hllPfmerge _ _
  | setKeyspaceConfig _ | pitrRecoverToTimestamp _ _ | pitrRecoverLatestSnapshot _ => exact h.elim
  | _ => rfl

theorem dispatchCalled_idle {rt : Runtime} {srv : Server} {io : Io} {req : Request}
    (h : req.IsWrite) (heffects : dispatchEffects rt srv io req = []) :
    dispatchCalled rt srv io req = srv.store := by
  rw [dispatchCalled_write srv io h, heffects]
  rfl

/-- The log-first requests make one, if the append succeeds. -/
theorem dispatchCalled_loggedWrite {rt : Runtime} (srv : Server) (io : Io) {req : Request}
    {op : WalOperation} {w : Write} (h : req.loggedWrite rt = some (op, w)) :
    dispatchCalled rt srv io req
      = if (io.disk 0).isNone then (srv.store.write rt (io.now 0) w).2 else srv.store := by
  have hwrite : req.IsWrite := by cases req <;> trivial
  rw [dispatchCalled_write srv io hwrite, dispatchEffects_loggedWrite srv io h, Io.effect]
  cases io.disk 0 <;> rfl

theorem pipelineExec_ends (rt : Runtime) (srv : Server) (io : Io) (commands : List PipelineCommand) :
    Ends srv true (dispatchCalled rt srv io (.pipelineExec commands))
      (srv.pipelineExec rt io commands).2 := by
  have hwrite : (Request.pipelineExec commands).IsWrite := trivial
  rw [dispatchCalled_write srv io hwrite, ← foldl_onStore, pipelineExec_eq, dispatchEffects]
  cases pipelineAdmitted commands with
  | true => exact .announced ⟨rfl, rfl⟩ rfl
  | false => exact Ends.unchanged srv true

theorem luaExec_ends (rt : Runtime) (srv : Server) (io : Io) (script : LuaScript) :
    Ends srv false (dispatchCalled rt srv io (.luaExec script)) (srv.luaExec rt io script).2 := by
  have hwrite : (Request.luaExec script).IsWrite := trivial
  rw [dispatchCalled_write srv io hwrite, ← foldl_onStore, luaExec_snd, dispatchEffects]
  cases srv.luaAdmitted script with
  | true =>
      rw [if_pos rfl, if_pos rfl, luaCalls_eq]
      exact Ends.of_silent rfl rfl
  | false => exact Ends.unchanged srv false

theorem hashHincrbyfloat_ends (rt : Runtime) (srv : Server) (io : Io) (key field : String)
    (amount : Float) : Ends srv false (dispatchCalled rt srv io (.hashHincrbyfloat key field amount))
      (srv.hashHincrbyfloat rt io key field amount).2 := by
  have hwrite : (Request.hashHincrbyfloat key field amount).IsWrite := trivial
  refine Ends.of_silent ?_ ?_
  · rw [dispatchCalled_write srv io hwrite, ← foldl_onStore, hashHincrbyfloat_calls,
      hashHincrbyfloat_store]
  · unfold hashHincrbyfloat append
    rcases srv.store.hincrbyfloat rt key field amount with ⟨e | value, store⟩
    · rfl
    · cases io.disk 0 <;> rfl

/-- How the handlers end. -/
theorem dispatch_ends (rt : Runtime) (srv : Server) (io : Io) (req : Request) :
    Ends srv req.publishes (dispatchCalled rt srv io req) (srv.dispatch rt io req).2 := by
  cases hop : req.loggedWrite rt with
  | some p =>
      obtain ⟨failure, call, hdispatch, hcall⟩ := dispatch_logFirst srv io hop
      rw [dispatchCalled_loggedWrite srv io hop, hdispatch, ← hcall]
      exact logFirst_ends srv io failure p.1 req.publishes call
  | none =>
      cases req with
      | pipelineExec commands => exact pipelineExec_ends rt srv io commands
      | luaExec script => exact luaExec_ends rt srv io script
      | hashHincrbyfloat key field amount => exact hashHincrbyfloat_ends rt srv io key field amount
      | setValue key value ttl =>
          have hnone : (srv.dispatch rt io (.setValue key value ttl)).2 = srv :=
            setValue_unlogged srv io hop
          have hwrite : (Request.setValue key value ttl).IsWrite := trivial
          rw [hnone, dispatchCalled_idle hwrite (by simp only [dispatchEffects, hop])]
          exact Ends.unchanged srv true
      | setExpire key ttl =>
          have hnone : (srv.dispatch rt io (.setExpire key ttl)).2 = srv := setExpire_unlogged srv io hop
          have hwrite : (Request.setExpire key ttl).IsWrite := trivial
          rw [hnone, dispatchCalled_idle hwrite (by simp only [dispatchEffects, hop])]
          exact Ends.unchanged srv true
      | cleanupExpired => exact .announced ⟨rfl, rfl⟩ rfl
      | multi | exec | discard =>
          simp only [dispatch, multi, exec, discard, transactionAnswer_snd]
          exact Ends.of_silent rfl rfl
      | hllPfadd _ _ | hllPfreserve _ _ | hllPfmerge _ _ =>
          simp only [dispatch, hllPfadd, hllPfreserve, hllPfmerge, hllAnswer, ofResult_snd]
          exact Ends.of_silent rfl rfl
      | setKeyspaceConfig enabled => exact Ends.of_silent rfl rfl
      | pitrRecoverToTimestamp target recovered => cases recovered <;> exact Ends.of_silent rfl rfl
      | pitrRecoverLatestSnapshot recovered => cases recovered <;> exact Ends.of_silent rfl rfl
      | _ => cases hop

theorem handle_ends (rt : Runtime) (srv : Server) (io : Io) (req : Request) :
    Ends srv req.publishes (srv.called rt io req) (srv.handle rt io req).2 := by
  unfold handle called
  cases requireApiKey io.headers srv.runtime with
  | some refusal => exact Ends.unchanged srv req.publishes
  | none => exact dispatch_ends rt srv io req

end Server

/-! ## Every handler -/

/-- The handlers that publish the events of their store calls. -/
def HttpRequest.publishes : HttpRequest → Bool
  | write req => req.publishes
  | _ => false

namespace App

section

variable (rt : Runtime) (app : App) (io : AppIo)

/-- The store calls of a sync asked of this server. -/
def syncCalls : List (Nat × Write) :=
  app.replica.elim [] fun node =>
    Carried.calls ((app.attached node.replica).synced rt io.sync io.masterWal)

/-- The store after the store calls of a request, before anything is published. -/
def called : HttpRequest → KvStore
  | .write req => app.server.called rt io.toIo req
  | .replicationSync => app.server.store.writes rt (app.syncCalls rt io)
  | _ => app.server.store

/-- The events that the store calls of a request emit. -/
def emitted (req : HttpRequest) : List KeyspaceEvent :=
  (app.called rt io req).pendingKeyspaceEvents.drop app.server.store.pendingKeyspaceEvents.length

end

variable {rt : Runtime} {app : App} {io : AppIo}

theorem replicationSync_ends :
    app.server.Ends false (app.server.store.writes rt (app.syncCalls rt io))
      (app.replicationSync rt io).2.server := by
  unfold replicationSync syncCalls
  cases app.replica with
  | none => exact Server.Ends.unchanged app.server false
  | some node =>
      refine Server.Ends.of_silent ?_ ?_
      · have hstore : ((app.attached node.replica).sync rt io.sync io.masterWal).2.store = _ :=
          ReplicationReplica.sync_store (app.attached node.replica) io.sync io.masterWal
        simp only [Option.elim]
        rw [← show (app.attached node.replica).store = app.server.store from rfl, ← hstore]
        split <;> rfl
      · simp only
        split <;> rfl

/-- Every other handler but those of the writes leaves the server alone. -/
theorem handle_server (c : SnapshotCodec) {req : HttpRequest} (hwrite : ∀ r, req ≠ .write r)
    (hsync : req ≠ .replicationSync) : (app.handle rt c io req).2.server = app.server := by
  have hguarded : ∀ handler : Response × App, handler.2.server = app.server →
      (app.guarded io handler).2.server = app.server := by
    intro handler h
    unfold guarded
    split
    · rfl
    · exact h
  cases req with
  | write req => exact absurd rfl (hwrite req)
  | replicationSync => exact absurd rfl hsync
  | pitrCreateSnapshot => exact hguarded _ (by simp only; split <;> rfl)
  | pitrCleanupOldSnapshots maxAgeSecs => exact hguarded _ (by simp only; split <;> rfl)
  | pubsubSubscribe channel => exact hguarded _ (by simp only; split <;> rfl)
  | pubsubPublish channel message => exact hguarded _ (by simp only; split <;> rfl)
  | replicationHeartbeat replicaId lastAppliedIndex =>
      unfold handle replicationHeartbeat
      cases app.master with
      | none => rfl
      | some master =>
          simp only
          split
          · split <;> rfl
          · rfl
  | replicationGetWal fromIndex limit =>
      simp only [handle, replicationGetWal_snd]
  | replicationListReplicas =>
      unfold handle replicationListReplicas
      cases app.master <;> rfl
  | replicationStatus =>
      unfold handle replicationStatus
      cases app.replica <;> rfl
  | pubsubUnsubscribe _ _ | listLrange _ _ _ | listLlen _ | hashHget _ _ | hashHmget _ _
  | hashHgetall _ | hashHkeys _ | hashHvals _ | hashHlen _ | hashHexists _ _
  | getKeyspaceConfig => exact hguarded _ rfl
  | _ => rfl

theorem handle_ends (rt : Runtime) (app : App) (io : AppIo) (c : SnapshotCodec) (req : HttpRequest) :
    app.server.Ends req.publishes (app.called rt io req) (app.handle rt c io req).2.server := by
  cases req with
  | write req => exact Server.handle_ends rt app.server io.toIo req
  | replicationSync => exact replicationSync_ends
  | _ =>
      rw [handle_server c (by simp) (by simp)]
      exact Server.Ends.unchanged app.server false

/-! ## What waits in the queue -/

/-- The store calls of a request. -/
def calls (rt : Runtime) (app : App) (io : AppIo) : HttpRequest → List (Nat × Write)
  | .write req => (app.server.effects rt io.toIo req).filterMap Effect.call
  | .replicationSync => app.syncCalls rt io
  | _ => []

end App

/-- A recovered store has no events: it is read with notifications off, and the entries keep them so. -/
theorem Pitr.recoverToTimestamp_pending {c : SnapshotCodec} {rt : Runtime} {disk : RecoverIo}
    {target : Nat} {store : KvStore} (h : recoverToTimestamp c rt disk target = .ok store) :
    store.pendingKeyspaceEvents = [] := by
  unfold recoverToTimestamp at h
  split at h
  · cases h
  · split at h
    · cases h
    · next base hbase =>
        split at h
        · cases h
        · obtain ⟨saved, rfl⟩ := baseStore_saved hbase
          cases h
          rw [replayTo_eq, applyAll_writes]
          exact (KvStore.writes_emit rt _ saved.toStore).pending_eq_iff.mpr
            (not_not.mpr (KvStore.unnoted_of_off rt _ saved.toStore rfl))

theorem Pitr.recoverToLatestSnapshot_pending {c : SnapshotCodec} {rt : Runtime} {disk : RecoverIo}
    {store : KvStore} (h : recoverToLatestSnapshot c rt disk = .ok store) :
    store.pendingKeyspaceEvents = [] := by
  unfold recoverToLatestSnapshot at h
  split at h
  · cases h
  · split at h
    · cases h
    · exact recoverToTimestamp_pending h

/-- What a recovery puts in place is what the snapshots and the log give. -/
def HttpRequest.Recovers (rt : Runtime) (c : SnapshotCodec) : HttpRequest → Prop
  | write (.pitrRecoverToTimestamp target recovered) =>
      ∃ disk, recovered = Pitr.recoverToTimestamp c rt disk target
  | write (.pitrRecoverLatestSnapshot recovered) =>
      ∃ disk, recovered = Pitr.recoverToLatestSnapshot c rt disk
  | _ => True

/-- The requests that make other calls than those of the log report nothing, clean-up aside. -/
theorem Server.dispatchCalled_pending {rt : Runtime} {c : SnapshotCodec} {srv : Server} {io : Io}
    {req : Request} (hempty : srv.store.pendingKeyspaceEvents = [])
    (hrecovers : (HttpRequest.write req).Recovers rt c) (hpublishes : req.publishes = false)
    (hwrite : ¬ req.IsWrite) : (dispatchCalled rt srv io req).pendingKeyspaceEvents = [] := by
  cases req with
  | cleanupExpired => cases hpublishes
  | exec => exact (KvStore.exec_pending srv.store).trans hempty
  | multi =>
      simp only [dispatchCalled, KvStore.multi]
      split <;> exact hempty
  | discard =>
      simp only [dispatchCalled, KvStore.discard]
      split <;> exact hempty
  | hllPfadd key values => exact (KvStore.pfadd_pending srv.store key rt values).trans hempty
  | hllPfreserve key precision => exact (KvStore.pfreserve_pending srv.store key precision).trans hempty
  | hllPfmerge key sources => exact (KvStore.pfmerge_pending srv.store key sources).trans hempty
  | setKeyspaceConfig enabled => exact hempty
  | pitrRecoverToTimestamp target recovered =>
      cases recovered with
      | error e => exact hempty
      | ok store =>
          obtain ⟨disk, hstore⟩ := hrecovers
          exact Pitr.recoverToTimestamp_pending hstore.symm
  | pitrRecoverLatestSnapshot recovered =>
      cases recovered with
      | error e => exact hempty
      | ok store =>
          obtain ⟨disk, hstore⟩ := hrecovers
          exact Pitr.recoverToLatestSnapshot_pending hstore.symm
  | _ => exact absurd trivial hwrite

/-- From an empty queue, the calls of a request leave one exactly if none of them reports anything. -/
theorem App.called_pending_iff {rt : Runtime} {c : SnapshotCodec} {app : App} (io : AppIo)
    {req : HttpRequest} (hempty : app.server.store.pendingKeyspaceEvents = [])
    (hrecovers : req.Recovers rt c) (hpublishes : req.publishes = false) :
    (app.called rt io req).pendingKeyspaceEvents = [] ↔
      app.server.store.Unnoted rt (app.calls rt io req) := by
  have hcalls : ∀ calls, (app.server.store.writes rt calls).pendingKeyspaceEvents = [] ↔
      app.server.store.Unnoted rt calls := by
    intro calls
    have hiff := (KvStore.writes_emit rt calls app.server.store).pending_eq_iff
    rwa [hempty, not_not] at hiff
  cases req with
  | replicationSync => exact hcalls _
  | write req =>
      simp only [called, Server.called, calls, Server.effects]
      cases requireApiKey io.headers app.server.runtime with
      | some refusal => exact hcalls []
      | none =>
          by_cases hwrite : req.IsWrite
          · simp only [Server.dispatchCalled_write app.server io.toIo hwrite]
            exact hcalls _
          · simp only [Server.dispatchEffects_eq_nil rt app.server io.toIo hwrite]
            exact iff_of_true (Server.dispatchCalled_pending hempty hrecovers hpublishes hwrite) trivial
  | _ => exact hcalls []

/-! ## Runs -/

/-- A request of a run, and the events emitted so far. -/
def App.observe (rt : Runtime) (c : SnapshotCodec) (o : App × List KeyspaceEvent)
    (r : AppIo × HttpRequest) : App × List KeyspaceEvent :=
  ((o.1.handle rt c r.1 r.2).2, o.2 ++ o.1.emitted rt r.1 r.2)

/-- Nothing is left in the queue, and the messages are those of the events emitted so far, in order. -/
structure AllAnnounced (before : List (String × String)) (o : App × List KeyspaceEvent) : Prop where
  pending : o.1.server.store.pendingKeyspaceEvents = []
  published : o.1.server.published = before ++ o.2.flatMap KeyspaceEvent.messages

/-- The handler publishes, or its store calls report nothing. -/
def LeavesNothing (rt : Runtime) (o : App × List KeyspaceEvent) (r : AppIo × HttpRequest) : Prop :=
  r.2.publishes = true ∨ o.1.server.store.Unnoted rt (o.1.calls rt r.1 r.2)

/-- Served with an empty queue, a request leaves an empty one, all announced, exactly in these cases. -/
theorem announced_step {rt : Runtime} {c : SnapshotCodec} {before : List (String × String)}
    {o : App × List KeyspaceEvent} {r : AppIo × HttpRequest} (h : AllAnnounced before o)
    (hrecovers : r.2.Recovers rt c) :
    AllAnnounced before (App.observe rt c o r) ↔ LeavesNothing rt o r := by
  obtain ⟨app, events⟩ := o
  obtain ⟨io, req⟩ := r
  obtain ⟨hempty, hpublished⟩ := h
  have hemitted : app.emitted rt io req = (app.called rt io req).pendingKeyspaceEvents := by
    rw [App.emitted, hempty, List.length_nil, List.drop_zero]
  have hstep : AllAnnounced before (App.observe rt c (app, events) (io, req)) ↔
      (app.handle rt c io req).2.server.store.pendingKeyspaceEvents = [] ∧
        (app.handle rt c io req).2.server.published = app.server.published
          ++ (app.called rt io req).pendingKeyspaceEvents.flatMap KeyspaceEvent.messages := by
    rw [hpublished, List.append_assoc, ← List.flatMap_append, ← hemitted]
    exact ⟨fun h => ⟨h.pending, h.published⟩, fun h => ⟨h.1, h.2⟩⟩
  rw [hstep]
  cases App.handle_ends rt app io c req with
  | announced h hpublishes => exact iff_of_true ⟨by rw [h.store], h.published⟩ (.inl hpublishes)
  | left h hidle =>
      rw [h.store, h.published]
      cases hpublishes : req.publishes with
      | true =>
          rw [hidle hpublishes, hempty]
          exact iff_of_true ⟨rfl, (List.append_nil _).symm⟩ (.inl hpublishes)
      | false =>
          have hquiet := App.called_pending_iff io hempty hrecovers hpublishes
          rw [LeavesNothing, ← hquiet, hpublishes, or_iff_right Bool.false_ne_true]
          refine and_iff_left_of_imp fun hnone => ?_
          rw [hnone]
          exact (List.append_nil _).symm

/-- Then Pub/Sub is given the messages of the events of the request, and no others. -/
theorem App.write_delivers {rt : Runtime} {c : SnapshotCodec} {app : App} {io : AppIo} {req : Request}
    (hempty : app.server.store.pendingKeyspaceEvents = [])
    (hrecovers : (HttpRequest.write req).Recovers rt c) (h : LeavesNothing rt (app, []) (io, .write req)) :
    (app.handle rt c io (.write req)).2.pubsub = App.publishAll (io.now 0)
      ((app.emitted rt io (.write req)).flatMap KeyspaceEvent.messages) app.pubsub := by
  have hbefore : AllAnnounced app.server.published (app, []) := ⟨hempty, by simp⟩
  have hpublished : (app.server.handle rt io.toIo req).2.published
      = app.server.published ++ (app.emitted rt io (.write req)).flatMap KeyspaceEvent.messages :=
    ((announced_step hbefore hrecovers).mpr h).published
  show App.publishAll (io.now 0) ((app.server.handle rt io.toIo req).2.published.drop
    app.server.published.length) app.pubsub = _
  rw [hpublished, List.drop_left]

/-- From a server whose queue is empty: after each request every event is announced, exactly in the runs
in which no handler that does not publish makes a call that reports something. -/
theorem announced_iff (rt : Runtime) (c : SnapshotCodec) (app : App)
    (requests : List (AppIo × HttpRequest))
    (hempty : app.server.store.pendingKeyspaceEvents = [])
    (hrecovers : ∀ r ∈ requests, r.2.Recovers rt c) :
    Always (App.observe rt c) (AllAnnounced app.server.published) (app, []) requests ↔
      Guarded (App.observe rt c) (LeavesNothing rt) (app, []) requests := by
  have hstart : AllAnnounced app.server.published (app, []) := ⟨hempty, by simp⟩
  exact always_iff_guarded
    (fun o r hinv hr hquiet => (announced_step hinv hr.2).mpr hquiet) (fun _ h => h)
    (fun o r hinv hr hloud hafter => hloud ((announced_step hinv hr.2).mp hafter))
    hstart (guarded_true.and_forall hrecovers)

/-- A server just started, with notifications on. -/
def notifyingApp : App := { server := .fresh {} none true }

/-- A set, and an append to the key that is there then. -/
def setThenAppend : List (AppIo × HttpRequest) :=
  [({ toIo := .healthy 5 }, .write (.setValue "k" "v" none)),
    ({ toIo := .healthy 6 }, .write (.appendValue "k" "w"))]

theorem announced_iff_setThenAppend :
    Always (App.observe .strings (.plain [])) (AllAnnounced []) (notifyingApp, []) setThenAppend :=
  (announced_iff .strings (.plain []) notifyingApp setThenAppend rfl
    (by simp [setThenAppend, HttpRequest.Recovers])).mpr
    ⟨.inl rfl, .inr ⟨fun _ h => absurd h.1 (by decide +kernel), trivial⟩, trivial⟩

/-- An append that creates its key answers with the event in the queue and without a message; the event
goes out with the next delete, of another key. -/
theorem appended_event_left :
    let appended := (notifyingApp.handle .strings (.plain []) { toIo := .healthy 5 }
      (.write (.appendValue "k" "v"))).2
    let deleted := (appended.handle .strings (.plain []) { toIo := .healthy 9 }
      (.write (.deleteValue "other"))).2
    appended.server.store.pendingKeyspaceEvents = [⟨.set, "k", 5⟩] ∧ appended.server.published = [] ∧
      deleted.server.published = [("__keyevent__:set", "k"), ("__keyspace__:k", "set")] ∧
      ¬ Always (App.observe .strings (.plain [])) (AllAnnounced []) (notifyingApp, [])
        [({ toIo := .healthy 5 }, .write (.appendValue "k" "v"))] := by
  refine ⟨by decide +kernel, by decide +kernel, by decide +kernel, fun h => ?_⟩
  exact absurd h.last.pending (by decide +kernel)

end Daikon
