/-
# Daikon.Api.Reads -- the handlers that read (`api.rs`)

The read handlers without a pipeline command; the others are in `Daikon.Api.Handlers`. A read handler
takes the store and gives an answer. Some of them check the API key all the same: where they do is
said in `Daikon.Api.Routes`.

They are here because the route table would have holes without them: a statement about every request of the
interface has to know that a read changes nothing, and what it answers. The answers keep the names and the
order of their members, and the rates and percentages are left to the float operations of the source.

A missing key is answered 404 by some and with an empty value by others, as the source has it. The reads of
expiry tell a key without an expiry from one that is missing by the numbers -1 and -2.
-/
import Daikon.Api.Handlers
import Daikon.Pitr.Snapshot
import Daikon.Store.Reads

namespace Daikon

/-! ## The memory profile -/

/-- The answer of `memory_profile`: sizes in bytes, counts by type. -/
structure MemoryProfile where
  totalBytes : Nat := 0
  keyBytes : Nat := 0
  valueBytes : Nat := 0
  stringValues : Nat := 0
  intValues : Nat := 0
  floatValues : Nat := 0
  boolValues : Nat := 0
  jsonValues : Nat := 0
  hyperloglogValues : Nat := 0
  listValues : Nat := 0
  ttlEntries : Nat := 0
  heapFragmentationRatio : Float := 0

namespace MemoryProfile

/-- One turn of the loop over the entries; hashes are not counted. -/
def count (p : MemoryProfile) (key : String) (entry : ValueWithTTL) : MemoryProfile :=
  let p := { p with
    keyBytes := p.keyBytes + key.utf8ByteSize
    valueBytes := p.valueBytes + estimateValueSize entry.value
    -- the bytes of a time stamp
    ttlEntries := p.ttlEntries + if entry.expiresAt.isSome then 8 else 0 }
  match entry.value with
  | .str _ => { p with stringValues := p.stringValues + 1 }
  | .int _ => { p with intValues := p.intValues + 1 }
  | .float _ => { p with floatValues := p.floatValues + 1 }
  | .bool _ => { p with boolValues := p.boolValues + 1 }
  | .json _ => { p with jsonValues := p.jsonValues + 1 }
  | .hyperLogLog _ => { p with hyperloglogValues := p.hyperloglogValues + 1 }
  | .list _ => { p with listValues := p.listValues + 1 }
  | .hash _ => p

/-- The profile as the server writes it. -/
def toJson (p : MemoryProfile) : Json :=
  .obj [("total_bytes", .int p.totalBytes), ("key_bytes", .int p.keyBytes),
    ("value_bytes", .int p.valueBytes), ("string_values", .int p.stringValues),
    ("int_values", .int p.intValues), ("float_values", .int p.floatValues),
    ("bool_values", .int p.boolValues), ("json_values", .int p.jsonValues),
    ("hyperloglog_values", .int p.hyperloglogValues), ("list_values", .int p.listValues),
    ("ttl_entries", .int p.ttlEntries),
    ("heap_fragmentation_ratio", .float p.heapFragmentationRatio)]

end MemoryProfile

/-- `memory_profile`, with the capacity of the hash map. -/
def KvStore.memoryProfile (s : KvStore) (capacity : Nat) : MemoryProfile :=
  let counted := s.store.toList.foldl (fun p e => p.count e.1 e.2) ({} : MemoryProfile)
  { counted with
    heapFragmentationRatio :=
      if capacity > 0 then Float.ofNat (capacity - s.store.size) / Float.ofNat capacity else 0
    totalBytes := s.stats.memoryBytes }

/-- The answer to a read that can fail. -/
def Response.ofRead {α : Type} (body : α → Json) : Except KvStoreError α → Response
  | .ok a => ⟨200, .json (body a)⟩
  | .error e => ⟨400, .text e.toString⟩

namespace Server

section

variable (rt : Runtime) (srv : Server) (now : Nat)

/-! ## The server -/

/-- The body of the two health checks. -/
def healthResponse (status : String) : Response :=
  ⟨200, .json (.obj [("status", .str status),
    ("lua_enabled", .bool ((srv.runtime.map ApiRuntimeConfig.luaEnabled).getD true))])⟩

/-- `GET /health/live`. -/
def healthLive : Response := srv.healthResponse "ok"

/-- `GET /health/ready`. It asks for nothing that could be not ready. -/
def healthReady : Response := srv.healthResponse "ready"

/-- The share of reads that hit; zero without reads. -/
def hitRate : Float :=
  let stats := srv.store.stats
  if stats.totalReads > 0 then Float.ofNat stats.hits / Float.ofNat stats.totalReads else 0

/-- `GET /metrics`, in the text format of Prometheus. The bytes are those of the counter, not of the data.
-/
def metrics (capacity : Nat) : Response :=
  let stats := srv.store.stats
  ⟨200, .text (s!"kv_total_keys {stats.totalKeys}\n" ++ s!"kv_total_reads {stats.totalReads}\n" ++
    s!"kv_total_writes {stats.totalWrites}\n" ++ s!"kv_total_deletes {stats.totalDeletes}\n" ++
    s!"kv_cache_hits {stats.hits}\n" ++ s!"kv_cache_misses {stats.misses}\n" ++
    s!"kv_hit_rate {rt.f64ToString srv.hitRate}\n" ++
    s!"kv_memory_bytes {(srv.store.memoryProfile capacity).totalBytes}\n" ++
    s!"kv_evictions {stats.evictions}\n")⟩

/-- `GET /stats`, with the hit rate in per cent. -/
def getStats : Response :=
  let stats := srv.store.stats
  ⟨200, .json (.obj [("total_keys", .int stats.totalKeys), ("expired_keys", .int stats.expiredKeys),
    ("total_reads", .int stats.totalReads), ("total_writes", .int stats.totalWrites),
    ("total_deletes", .int stats.totalDeletes), ("hits", .int stats.hits),
    ("misses", .int stats.misses), ("hit_rate", .float (srv.hitRate * 100))])⟩

/-- `GET /memory`. -/
def getMemoryProfile (capacity : Nat) : Response :=
  ⟨200, .json (srv.store.memoryProfile capacity).toJson⟩

/-- `GET /keyspace/config`. -/
def getKeyspaceConfig : Response :=
  ⟨200, .json (.obj [("keyspace_notifications_enabled",
    .bool srv.store.config.keyspaceNotificationsEnabled)])⟩

/-! ## Keys -/

/-- The entries that are not past their expiry, keys and values as two lists. -/
def listKeys : Response :=
  let live := srv.store.store.toList.filter fun p => !p.2.expired now
  ⟨200, .json (.obj [("keys", .arr (live.map fun p => .str p.1)),
    ("values", .arr (live.map fun p => .str (p.2.value.toString rt)))])⟩

/-- `GET /keys/pattern/{pattern}`. -/
def keysPattern (pattern : String) : Response :=
  ⟨200, .json (.arr ((srv.store.keysMatching now pattern).map .str))⟩

/-- `GET /ttl/{key}`. -/
def getTtl (key : String) : Response := ⟨200, .json (.int (srv.store.ttlSeconds now key))⟩

/-- `GET /pttl/{key}`. -/
def getPttl (key : String) : Response := ⟨200, .json (.int (srv.store.pttlMillis now key))⟩

/-! ## Sketches -/

/-- `GET /hll/{key}/count`. -/
def hllPfcount (key : String) : Response :=
  .ofRead (countBody key) (srv.store.pfcount now key)

/-- `GET /hll/{key}/info`. -/
def hllInfo (key : String) : Response :=
  .ofRead (fun info => .obj [("key", .str key), ("precision", .int info.precision),
    ("registers", .int info.registers), ("memory_bytes", .int info.memoryBytes),
    ("estimated_count", .int info.estimatedCount)]) (srv.store.hllInfo now key)

/-! ## Hashes -/

/-- `GET /hash/{key}/hget/{field}`, answered 404 with no text where the field is missing. -/
def hashHget (key field : String) : Response :=
  match srv.store.hget now key field with
  | .ok (some value) => ⟨200, .json (.str value)⟩
  | .ok none => ⟨404, .text ""⟩
  | .error e => ⟨400, .text e.toString⟩

/-- `POST /hash/{key}/hmget`, with null for a missing field. -/
def hashHmget (key : String) (fields : List String) : Response :=
  .ofRead (fun values => .arr (values.map .ofOption)) (srv.store.hmget now key fields)

/-- `GET /hash/{key}/hgetall`, an object with the fields as they are. -/
def hashHgetall (key : String) : Response :=
  .ofRead (fun map => .obj (map.toList.map fun p => (p.1, .str p.2))) (srv.store.hgetall now key)

/-- `GET /hash/{key}/hkeys`. -/
def hashHkeys (key : String) : Response :=
  .ofRead (fun keys => .arr (keys.map .str)) (srv.store.hkeys now key)

/-- `GET /hash/{key}/hvals`. -/
def hashHvals (key : String) : Response :=
  .ofRead (fun values => .obj [("key", .str key), ("values", .arr (values.map .str))])
    (srv.store.hvals now key)

/-- `GET /hash/{key}/hlen`. -/
def hashHlen (key : String) : Response :=
  .ofRead (fun length : Nat => .int length) (srv.store.hlen now key)

/-- `GET /hash/{key}/hexists/{field}`. -/
def hashHexists (key field : String) : Response :=
  .ofRead (fun found => .obj [("key", .str key), ("field", .str field), ("exists", .bool found)])
    (srv.store.hexists now key field)

end

end Server

/-! ## Snapshots -/

/-- A snapshot in the list of snapshots. -/
def SnapshotMetadata.toJson (m : SnapshotMetadata) : Json :=
  .obj [("timestamp", .int m.timestamp), ("num_keys", .int m.numKeys),
    ("num_operations", .int m.numOperations), ("snapshot_file", .str m.snapshotFile)]

namespace Pitr

/-- A read of the snapshot directory or of the log failed. -/
def failed (e : KvStoreError) : Response := ⟨500, .text e.toString⟩

/-- `GET /pitr/snapshots`, newest first. -/
def snapshotsAnswer (listing : Except KvStoreError (List SnapshotFile)) : Response :=
  match listing with
  | .ok files => ⟨200, .json (.arr ((listSnapshots files).map SnapshotMetadata.toJson))⟩
  | .error e => failed e

/-- `get_recovery_stats`; the log's size is asked for last. -/
def recoveryStats (listing : Except KvStoreError (List SnapshotFile))
    (readAll : Except KvStoreError (List WalEntry)) (size : Except KvStoreError Nat) : Response :=
  match listing, readAll, size with
  | .error e, _, _ => failed e
  | .ok _, .error e, _ => failed e
  | .ok _, .ok _, .error e => failed e
  | .ok files, .ok entries, .ok bytes =>
      let point := fun e : Option WalEntry => match e with
        | some entry => Json.int entry.timestamp
        | none => .null
      ⟨200, .json (.obj [("total_snapshots", .int (listSnapshots files).length),
        ("total_wal_entries", .int entries.length), ("earliest_recovery_point", point entries.head?),
        ("latest_recovery_point", point entries.getLast?), ("wal_file_size", .int bytes)])⟩

end Pitr

end Daikon
