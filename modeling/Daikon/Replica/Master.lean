/-
# Daikon.Replica.Master -- the master's table of replicas (`replication.rs`)

A replica announces itself with a heartbeat, which reads the log for its length. Asking for the table
marks the replicas whose last heartbeat is too old. The replication endpoints have a shared secret of
their own.

The table is a map from the name that a replica gives itself, so two replicas of one name share a row. A
heartbeat counts the lag against the length of the log at that moment, and reads the whole log for it; if
that fails the row stays as it was. `get_replicas_info` writes the marks it computes back into the table.

`getWalEntries` adds position and limit in 64 bits, as the release build does, and is none where the slice
that follows would end before it begins. The second half of the module is what the endpoints write, down to
the names of the fields: the fetch of a replica reads these documents again (`Daikon.Replica.Wire`).
-/
import Daikon.Store.Json
import Daikon.Wal.Entry
import Std.Data.ExtTreeMap

namespace Daikon

/-- How a replica is doing, as far as its heartbeats tell. -/
inductive ReplicaStatus where
  | healthy
  | lagging
  | disconnected
  deriving DecidableEq, Repr

/-- The row of a replica. Position and lag are those of its last heartbeat. -/
structure ReplicaInfo where
  replicaId : String
  lastAppliedIndex : Nat
  lastHeartbeat : Nat
  lag : Nat
  status : ReplicaStatus
  deriving DecidableEq, Repr

/-- The master's side of the replication, beside the log. Without a token everybody is let in. -/
structure ReplicationMaster where
  replicas : Std.ExtTreeMap String ReplicaInfo compare := ∅
  heartbeatTimeoutSecs : Nat
  authToken : Option String := none

namespace ReplicationMaster

/-- Whether a request with this token is let in. -/
def verifyAuth (m : ReplicationMaster) (provided : Option String) : Bool :=
  match m.authToken, provided with
  | none, _ => true
  | some expected, some token => token = expected
  | some _, none => false

/-- Take down a heartbeat. The lag is counted against the length of the log, and more than a hundred entries
make a replica lagging. -/
def registerReplica (m : ReplicationMaster) (now : Nat)
    (readAll : Except KvStoreError (List WalEntry)) (replicaId : String) (lastAppliedIndex : Nat) :
    Except KvStoreError Unit × ReplicationMaster :=
  match readAll with
  | .error e => (.error e, m)
  | .ok entries =>
      let lag := entries.length - lastAppliedIndex
      let status := if lag > 100 then ReplicaStatus.lagging else .healthy
      (.ok (), { m with
        replicas := m.replicas.insert replicaId ⟨replicaId, lastAppliedIndex, now, lag, status⟩ })

/-- A replica with an old heartbeat is marked. -/
def age (m : ReplicationMaster) (now : Nat) (info : ReplicaInfo) : ReplicaInfo :=
  if now - info.lastHeartbeat > m.heartbeatTimeoutSecs then { info with status := .disconnected }
  else info

/-- `get_wal_entries`; none if the call panics. -/
def getWalEntries (readAll : Except KvStoreError (List WalEntry))
    (fromIndex limit : UInt64) : Option (Except KvStoreError (List WalEntry)) :=
  match readAll with
  | .error e => some (.error e)
  | .ok entries =>
      let start := fromIndex.toNat
      if start ≥ entries.length then some (.ok [])
      else
        let stop := min (UInt64.ofNat start + limit).toNat entries.length
        -- the slice `start..stop`
        if start ≤ stop then some (.ok ((entries.take stop).drop start)) else none

/-- The table for the endpoint. Rows with an old heartbeat are marked in the table, too, and stay marked
until the next one. -/
def getReplicasInfo (m : ReplicationMaster) (now : Nat) : List ReplicaInfo × ReplicationMaster :=
  let m' := { m with replicas := m.replicas.map fun _ info => m.age now info }
  (m'.replicas.values, m')

end ReplicationMaster

/-! ## What the endpoints write -/

/-- A row as it is written. -/
def ReplicaInfo.toJson (info : ReplicaInfo) : Json :=
  .obj [("replica_id", .str info.replicaId), ("last_applied_index", .int info.lastAppliedIndex),
    ("last_heartbeat", .int info.lastHeartbeat), ("lag", .int info.lag),
    ("status", .str (match info.status with
      | .healthy => "healthy"
      | .lagging => "lagging"
      | .disconnected => "disconnected"))]

/-- The derived JSON of an operation, with its name in the field `op`. -/
def WalOperation.toJson : WalOperation → Json
  | set key value ttlSecs =>
      tagged "SET" [("key", .str key), ("value", .str value),
        ("ttl_secs", match ttlSecs with
          | some ttl => .int ttl
          | none => .null)]
  | delete key => tagged "DELETE" [("key", .str key)]
  | incr key => tagged "INCR" [("key", .str key)]
  | decr key => tagged "DECR" [("key", .str key)]
  | incrBy key amount => tagged "INCRBY" [("key", .str key), ("amount", .int amount.toInt)]
  | append key value => tagged "APPEND" [("key", .str key), ("value", .str value)]
  | getSet key value => tagged "GETSET" [("key", .str key), ("value", .str value)]
  | mset pairs => tagged "MSET" [("pairs", .arr (pairs.map fun p => .arr [.str p.1, .str p.2]))]
  | pfAdd key values => tagged "PFADD" [("key", .str key), ("values", .arr (values.map .str))]
  | pfMerge destination sources =>
      tagged "PFMERGE" [("destination", .str destination), ("sources", .arr (sources.map .str))]
  | lPush key values => tagged "LPUSH" [("key", .str key), ("values", .arr (values.map .str))]
  | rPush key values => tagged "RPUSH" [("key", .str key), ("values", .arr (values.map .str))]
  | lPop key => tagged "LPOP" [("key", .str key)]
  | rPop key => tagged "RPOP" [("key", .str key)]
  | expire key ttlSecs => tagged "EXPIRE" [("key", .str key), ("ttl_secs", .int ttlSecs)]
  | persist key => tagged "PERSIST" [("key", .str key)]
  | hSet key fields =>
      tagged "HSET" [("key", .str key), ("fields", .obj (fields.toList.map fun p => (p.1, .str p.2)))]
  | hDel key fields => tagged "HDEL" [("key", .str key), ("fields", .arr (fields.map .str))]
  | hIncrBy key field amount =>
      tagged "HINCRBY" [("key", .str key), ("field", .str field), ("amount", .int amount.toInt)]
where
  tagged (name : String) (fields : List (String × Json)) : Json := .obj (("op", .str name) :: fields)

/-- An entry as it is written, in the log and in the answer to a replica. -/
def WalEntry.toJson (entry : WalEntry) : Json :=
  .obj [("timestamp", .int entry.timestamp), ("operation", entry.operation.toJson)]

end Daikon
