/-
# Daikon.Api.Routes -- the route table of the server (`server.rs`)

Everything a handler can reach: the store, the log and the settings (`Server`), the Pub/Sub queues,
the snapshot directory, and on a master or a replica the state of the replication. A request has
passed the extractors here: a path or body that does not parse is answered before any handler runs.

One request of the table is never served over HTTP: the server registers `/pitr/recover/{timestamp}`
before `/pitr/recover/latest` and takes the first route that matches, so a request for the latest snapshot
is answered 404, for `latest` is no number. `Request.pitrRecoverLatestSnapshot` stays among the requests
because its handler exists and has results of its own; runs that have it are so many runs more.

The API key is not checked by a middleware but by the handlers, each for itself: in the definitions
below `guarded` stands where the source calls `require_api_key`. The write handlers of
`Daikon.Api.Request` all do.
-/
import Daikon.Api.PubSub
import Daikon.Api.Reads
import Daikon.Api.Request
import Daikon.Replica.Master
import Daikon.Replica.State

namespace Daikon

/-- A replica with its names. Its store and its log are those of the server. -/
structure ReplicaNode where
  replicaId : String
  masterUrl : String
  replica : ReplicationReplica

/-- A server with all its parts. On a master or a replica the source registers the data of the replication;
else the handlers that need it have none. -/
structure App where
  server : Server
  pubsub : PubSub := {}
  /-- The snapshot directory. -/
  snapshots : List SnapshotFile := []
  master : Option ReplicationMaster := none
  replica : Option ReplicaNode := none

/-- What the environment decides while a request runs. -/
structure AppIo extends Io where
  /-- The capacity of the store's hash map. -/
  capacity : Nat := 0
  /-- The snapshot directory, in the order in which it is listed. -/
  listing : Except KvStoreError (List SnapshotFile) := .ok []
  /-- The error of reading the log, if it fails. -/
  readAll : Option KvStoreError := none
  walSize : Except KvStoreError Nat := .ok 0
  snapshot : SnapshotIo := { nanos := 0 }
  removeFile : String → Option KvStoreError := fun _ => none
  sync : SyncIo := {}
  /-- The log of the master that a replica syncs with. -/
  masterWal : List WalEntry := []
  /-- The identifier drawn for a new subscriber. -/
  subscriberId : String := ""

/-- The handlers of the route table. -/
inductive HttpRequest where
  | write (req : Request)
  | healthLive
  | healthReady
  | metrics
  | listKeys
  | getValue (key : String)
  | mgetValues (keys : List String)
  | existsKey (key : String)
  | getTtl (key : String)
  | getPttl (key : String)
  | keysPattern (pattern : String)
  | getStats
  | getMemoryProfile
  | pitrCreateSnapshot
  | pitrListSnapshots
  | pitrStats
  | pitrCleanupOldSnapshots (maxAgeSecs : Nat)
  | replicationHeartbeat (replicaId : String) (lastAppliedIndex : Nat)
  | replicationGetWal (fromIndex : Nat) (limit : Option Nat)
  | replicationListReplicas
  | replicationSync
  | replicationStatus
  | pubsubSubscribe (channel : String)
  | pubsubUnsubscribe (channel subscriberId : String)
  | pubsubPublish (channel message : String)
  | pubsubPollMessages (subscriberId : String) (limit : Option String)
  | pubsubListChannels
  | pubsubListSubscribers (channel : String)
  | hllPfcount (key : String)
  | hllInfo (key : String)
  | listLrange (key : String) (start stop : Option Int)
  | listLlen (key : String)
  | hashHget (key field : String)
  | hashHmget (key : String) (fields : List String)
  | hashHgetall (key : String)
  | hashHkeys (key : String)
  | hashHvals (key : String)
  | hashHlen (key : String)
  | hashHexists (key field : String)
  | getKeyspaceConfig

namespace App

section

variable (rt : Runtime) (c : SnapshotCodec) (app : App) (io : AppIo)

/-- A handler that begins with `require_api_key`. -/
def guarded (handler : Response × App) : Response × App :=
  match requireApiKey io.headers app.server.runtime with
  | some refusal => (refusal, app)
  | none => handler

/-- Publish channels and texts in turn. -/
def publishAll (now : Nat) (messages : List (String × String)) (p : PubSub) : PubSub :=
  messages.foldl (fun p m => (p.publish now m.1 m.2).2) p

/-- A write handler; the messages it hands to Pub/Sub are delivered. -/
def write (req : Request) : Response × App :=
  let r := app.server.handle rt io.toIo req
  (r.1, { app with
    server := r.2
    pubsub := publishAll (io.now 0) (r.2.published.drop app.server.published.length) app.pubsub })

/-- The log as it is read. -/
def readAll : Except KvStoreError (List WalEntry) :=
  match io.readAll with
  | some e => .error e
  | none => .ok app.server.wal

/-! ## Snapshots -/

/-- `POST /pitr/snapshot`. The log is left as it is. -/
def pitrCreateSnapshot : Response × App :=
  app.guarded io <|
    let r := Pitr.createSnapshot c io.snapshot app.snapshots app.server.wal app.server.store
    let app := { app with snapshots := r.2 }
    match r.1 with
    | .ok metadata => (⟨200, .json metadata.toJson⟩, app)
    | .error e => (⟨500, .text e.toString⟩, app)

/-- `GET /pitr/snapshots`, with no API key asked for. -/
def pitrListSnapshots : Response × App := (Pitr.snapshotsAnswer io.listing, app)

/-- `GET /pitr/stats`, with no API key asked for. -/
def pitrStats : Response × App := (Pitr.recoveryStats io.listing (app.readAll io) io.walSize, app)

/-- `POST /pitr/cleanup`. Files removed before an error stay removed. -/
def pitrCleanupOldSnapshots (maxAgeSecs : Nat) : Response × App :=
  app.guarded io <|
    let r := Pitr.cleanupOldSnapshots (io.now 0) maxAgeSecs io.listing io.removeFile app.snapshots
    let app := { app with snapshots := r.2 }
    match r.1 with
    | .ok deleted =>
        (⟨200, .json (.obj [("status", .str "OK"), ("deleted_snapshots", .int deleted)])⟩, app)
    | .error e => (⟨500, .text e.toString⟩, app)

/-! ## Replication -/

/-- A node that is no master, or no replica, has no data for the handler. -/
def notConfigured : Response :=
  ⟨500, .text ("Requested application data is not configured correctly. " ++
    "View/enable debug logs for more details.")⟩

/-- The answer to a request without the secret of the replication. -/
def invalidToken : Response :=
  ⟨401, .json (.obj [("error", .str "Invalid or missing authentication token")])⟩

/-- `POST /replication/heartbeat`: a replica reports its position and gets a row in the table. The secret of
the replication is asked for, not the API key. -/
def replicationHeartbeat (replicaId : String) (lastAppliedIndex : Nat) : Response × App :=
  match app.master with
  | none => (notConfigured, app)
  | some master =>
      if master.verifyAuth (io.headers.authorization.bind stripBearer) then
        let r := master.registerReplica (io.now 0) (app.readAll io) replicaId lastAppliedIndex
        let app := { app with master := some r.2 }
        match r.1 with
        | .ok () =>
            (⟨200, .json (.obj [("status", .str "OK"), ("message", .str "Heartbeat received")])⟩, app)
        | .error e => (⟨500, .text e.toString⟩, app)
      else (invalidToken, app)

/-- A number of the query that does not fit 64 bits. -/
def badQuery : Response :=
  ⟨400, .text "Query deserialize error: number too large to fit in target type"⟩

/-- No answer at all: the handler has panicked, and the server drops the connection. -/
def noAnswer : Response := ⟨0, .text ""⟩

/-- A page of the log. The log is read a second time for its length. -/
def replicationGetWal (fromIndex : Nat) (limit : Option Nat) : Response × App :=
  if 2 ^ 64 ≤ fromIndex ∨ 2 ^ 64 ≤ limit.getD 100 then (badQuery, app)
  else
    match app.master with
    | none => (notConfigured, app)
    | some master =>
        if master.verifyAuth (io.headers.authorization.bind stripBearer) then
          match ReplicationMaster.getWalEntries (app.readAll io) (UInt64.ofNat fromIndex)
              (UInt64.ofNat (limit.getD 100)), app.readAll io with
          | some (.ok entries), .ok wal =>
              (⟨200, .json (.obj [("entries", .arr (entries.map WalEntry.toJson)),
                ("total_entries", .int wal.length)])⟩, app)
          | some (.error e), _ | some (.ok _), .error e => (⟨500, .text e.toString⟩, app)
          | none, _ => (noAnswer, app)
        else (invalidToken, app)

/-- Asking for a page changes nothing. -/
theorem replicationGetWal_snd (fromIndex : Nat) (limit : Option Nat) :
    (app.replicationGetWal io fromIndex limit).2 = app := by
  unfold replicationGetWal
  split
  · rfl
  · cases app.master with
    | none => rfl
    | some master =>
        simp only
        split
        · split <;> rfl
        · rfl

/-- `GET /replication/replicas`. Reading the table sets the status of rows that have timed out. -/
def replicationListReplicas : Response × App :=
  match app.master with
  | none => (notConfigured, app)
  | some master =>
      let r := master.getReplicasInfo (io.now 0)
      (⟨200, .json (.obj [("replicas", .arr (r.1.map ReplicaInfo.toJson)),
        ("count", .int r.1.length)])⟩, { app with master := some r.2 })

/-- The replica over the store and the log of the server. -/
def attached (replica : ReplicationReplica) : ReplicationReplica :=
  { replica with store := app.server.store, wal := app.server.wal }

/-- `POST /replication/sync`. The replica asks its master for a page and carries it out. No key is checked.
-/
def replicationSync : Response × App :=
  match app.replica with
  | none => (notConfigured, app)
  | some node =>
      let r := (app.attached node.replica).sync rt io.sync io.masterWal
      let app := { app with
        server := { app.server with store := r.2.store, wal := r.2.wal }
        replica := some { node with replica := r.2 } }
      match r.1 with
      | .ok count =>
          (⟨200, .json (.obj [("status", .str "OK"), ("applied_entries", .int count),
            ("message", .str s!"Synced {count} entries from master")])⟩, app)
      | .error e =>
          (⟨500, .json (.obj [("status", .str "ERROR"), ("error", .str e.toString)])⟩, app)

/-- `GET /replication/status`, `get_status` of the replica with its names. -/
def replicationStatus : Response × App :=
  match app.replica with
  | none => (notConfigured, app)
  | some node =>
      let time := fun n : Option Nat => match n with
        | some n => Json.int n
        | none => .null
      (⟨200, .json (.obj [("replica_id", .str node.replicaId), ("master_url", .str node.masterUrl),
        ("last_applied_index", .int node.replica.lastAppliedIndex),
        ("lag_entries", .int node.replica.lagEntries),
        ("last_successful_sync_unix_secs", time node.replica.lastSuccessfulSyncUnixSecs),
        ("last_sync_duration_ms", time node.replica.lastSyncDurationMs)])⟩, app)

/-! ## Pub/Sub -/

/-- `POST /pubsub/subscribe/{channel}`, answered with an identifier drawn for this subscription. -/
def pubsubSubscribe (channel : String) : Response × App :=
  app.guarded io <|
    let r := app.pubsub.subscribe channel io.subscriberId
    let app := { app with pubsub := r.2 }
    match r.1 with
    | .ok id => (⟨200, .json (.obj [("subscriber_id", .str id)])⟩, app)
    | .error e => (⟨400, .text e.toString⟩, app)

/-- `POST /pubsub/unsubscribe/{channel}/{subscriber_id}`, answered with success for any identifier. -/
def pubsubUnsubscribe (channel subscriberId : String) : Response × App :=
  app.guarded io
    (⟨200, .json (.obj [("status", .str "unsubscribed")])⟩,
      { app with pubsub := app.pubsub.unsubscribe channel subscriberId })

/-- `POST /pubsub/publish/{channel}`, answered with the number of subscribers. -/
def pubsubPublish (channel message : String) : Response × App :=
  app.guarded io <|
    let r := app.pubsub.publish (io.now 0) channel message
    let app := { app with pubsub := r.2 }
    match r.1 with
    | .ok count =>
        (⟨200, .json (.obj [("channel", .str channel), ("subscribers_count", .int count)])⟩, app)
    | .error e => (⟨400, .text e.toString⟩, app)

/-- The number of messages asked for; ten where the query gives no number. -/
def pollLimit (limit : Option String) : Nat := (limit.bind parseU64).getD 10

/-- Polling asks for no API key. -/
def pubsubPollMessages (subscriberId : String) (limit : Option String) : Response × App :=
  let r := app.pubsub.pollMessages subscriberId (pollLimit limit)
  (⟨200, .json (.obj [("messages", .arr (r.1.map fun msg => .obj [("channel", .str msg.channel),
    ("message", .str msg.message), ("timestamp", .int msg.timestamp)]))])⟩,
    { app with pubsub := r.2 })

/-- `GET /pubsub/channels`. -/
def pubsubListChannels : Response × App :=
  (⟨200, .json (.obj [("channels", .arr (app.pubsub.listChannels.map .str))])⟩, app)

/-- `GET /pubsub/channels/{channel}/subscribers`. -/
def pubsubListSubscribers (channel : String) : Response × App :=
  (⟨200, .json (.obj [("channel", .str channel),
    ("subscribers", .arr ((app.pubsub.listSubscribers channel).map .str))])⟩, app)

/-! ## The route table -/

/-- Answer one request. What a handler reads of the clock, the disk and the network is in `io`. -/
def handle : HttpRequest → Response × App
  | .write req => app.write rt io req
  | .healthLive => (app.server.healthLive, app)
  | .healthReady => (app.server.healthReady, app)
  | .metrics => (app.server.metrics rt io.capacity, app)
  | .listKeys => (app.server.listKeys rt (io.now 0), app)
  | .getValue key => (app.server.getValue rt io.toIo key, app)
  | .mgetValues keys => (app.server.mgetValues rt io.toIo keys, app)
  | .existsKey key => (app.server.existsKey io.toIo key, app)
  | .getTtl key => (app.server.getTtl (io.now 0) key, app)
  | .getPttl key => (app.server.getPttl (io.now 0) key, app)
  | .keysPattern pattern => (app.server.keysPattern (io.now 0) pattern, app)
  | .getStats => (app.server.getStats, app)
  | .getMemoryProfile => (app.server.getMemoryProfile io.capacity, app)
  | .pitrCreateSnapshot => app.pitrCreateSnapshot c io
  | .pitrListSnapshots => app.pitrListSnapshots io
  | .pitrStats => app.pitrStats io
  | .pitrCleanupOldSnapshots maxAgeSecs => app.pitrCleanupOldSnapshots io maxAgeSecs
  | .replicationHeartbeat replicaId lastAppliedIndex =>
      app.replicationHeartbeat io replicaId lastAppliedIndex
  | .replicationGetWal fromIndex limit => app.replicationGetWal io fromIndex limit
  | .replicationListReplicas => app.replicationListReplicas io
  | .replicationSync => app.replicationSync rt io
  | .replicationStatus => app.replicationStatus
  | .pubsubSubscribe channel => app.pubsubSubscribe io channel
  | .pubsubUnsubscribe channel subscriberId => app.pubsubUnsubscribe io channel subscriberId
  | .pubsubPublish channel message => app.pubsubPublish io channel message
  | .pubsubPollMessages subscriberId limit => app.pubsubPollMessages subscriberId limit
  | .pubsubListChannels => app.pubsubListChannels
  | .pubsubListSubscribers channel => app.pubsubListSubscribers channel
  | .hllPfcount key => (app.server.hllPfcount (io.now 0) key, app)
  | .hllInfo key => (app.server.hllInfo (io.now 0) key, app)
  -- the list and hash reads check the key, unlike the reads above
  | .listLrange key start stop => app.guarded io (app.server.listLrange io.toIo key start stop, app)
  | .listLlen key => app.guarded io (app.server.listLlen io.toIo key, app)
  | .hashHget key field => app.guarded io (app.server.hashHget (io.now 0) key field, app)
  | .hashHmget key fields => app.guarded io (app.server.hashHmget (io.now 0) key fields, app)
  | .hashHgetall key => app.guarded io (app.server.hashHgetall (io.now 0) key, app)
  | .hashHkeys key => app.guarded io (app.server.hashHkeys (io.now 0) key, app)
  | .hashHvals key => app.guarded io (app.server.hashHvals (io.now 0) key, app)
  | .hashHlen key => app.guarded io (app.server.hashHlen (io.now 0) key, app)
  | .hashHexists key field => app.guarded io (app.server.hashHexists (io.now 0) key field, app)
  | .getKeyspaceConfig => app.guarded io (app.server.getKeyspaceConfig, app)

end

end App

end Daikon
