/-
# Daikon.Wal.Entry -- the entries of the write-ahead log and their three interpreters

`WalOperation` and `WalEntry` (`wal.rs`), and the code that carries logged operations out:
`replay_wal` at startup (`server.rs`), `Pitr::apply_wal_entry` for recovery (`pitr.rs`) and
`ReplicationReplica::apply_wal_entry` on a replica (`replication.rs`). The last two have the same
match over the operations and share `applyOperation`; the replica's append to its own log is in
`Daikon.Replica.State`. Each entry is carried out at its own reading of the clock.

The interpreters differ in what they do with an error. Replay passes that of a SET on and drops all others,
recovery logs every error and goes on, and a replica stops at the first. They differ, too, in what they make
of a text that was logged for a value: replay decodes it, and drops the entry if it does not decode, while
the other two store the text as it is. Both differences are translated as they stand (`propagate`,
`swallow`, `decodePairs`), and what follows from them is worked out in `Daikon.Wal.Interpret`.

An entry is stamped in seconds when it is made; the expiry that it leads to is counted from the clock of the
interpreter.
-/
import Daikon.Store.Write

namespace Daikon

/-- The operations of the log, one for each write that is logged. PFADD and PFMERGE are carried out where a log
has them, but nothing appends them. -/
inductive WalOperation where
  | set (key value : String) (ttlSecs : Option Nat)
  | delete (key : String)
  | incr (key : String)
  | decr (key : String)
  | incrBy (key : String) (amount : Int64)
  | append (key value : String)
  | getSet (key value : String)
  | mset (pairs : List (String × String))
  | pfAdd (key : String) (values : List String)
  | pfMerge (destination : String) (sources : List String)
  | lPush (key : String) (values : List String)
  | rPush (key : String) (values : List String)
  | lPop (key : String)
  | rPop (key : String)
  | expire (key : String) (ttlSecs : Nat)
  | persist (key : String)
  | hSet (key : String) (fields : Fields)
  | hDel (key : String) (fields : List String)
  | hIncrBy (key field : String) (amount : Int64)
  deriving DecidableEq

/-- A line of the log. The time stamp is in seconds. -/
structure WalEntry where
  timestamp : Nat
  operation : WalOperation
  deriving DecidableEq

/-- `WalEntry::new` at a reading of the clock. -/
def WalEntry.new (now : Nat) (operation : WalOperation) : WalEntry := ⟨now, operation⟩

/-! ## What becomes of a store error -/

/-- The `?` operator: an error is returned. -/
def propagate {α : Type} (r : Except KvStoreError α × KvStore) : Except KvStoreError Unit × KvStore :=
  (r.1.map fun _ => (), r.2)

/-- The `let _ =` form: an error is dropped. -/
def swallow {α : Type} (r : Except KvStoreError α × KvStore) : Except KvStoreError Unit × KvStore :=
  (.ok (), r.2)

/-! ## Startup: `replay_wal` -/

/-- The pairs of a logged MSET, each value decoded; `none` if one does not decode. -/
def decodePairs (rt : Runtime) : List (String × String) → Option (List (String × Value))
  | [] => some []
  | (key, value) :: pairs =>
      match rt.valueFromJson value, decodePairs rt pairs with
      | some parsed, some rest => some ((key, parsed) :: rest)
      | _, _ => none

/-- One turn of the replay loop. -/
def replayOperation (rt : Runtime) (now : Nat) (store : KvStore) :
    WalOperation → Except KvStoreError Unit × KvStore
  | .set key value ttlSecs =>
      match rt.valueFromJson value with
      | some parsed =>
          match ttlSecs with
          | some ttl => propagate (store.setWithTtl now key parsed ttl)
          | none => propagate (store.set now key parsed)
      | none => (.ok (), store)
  | .delete key => (.ok (), (store.delete now key).2)
  | .incr key => swallow (store.incr key)
  | .decr key => swallow (store.decr key)
  | .incrBy key amount => swallow (store.incrby key amount)
  | .append key value => swallow (store.append now key value)
  | .getSet key value =>
      match rt.valueFromJson value with
      | some parsed => swallow (store.getset now key parsed)
      | none => (.ok (), store)
  | .mset pairs =>
      match decodePairs rt pairs with
      | some parsed => swallow (store.mset now (parsed.map fun p => (p.1, p.2.toString rt)))
      | none => (.ok (), store)
  | .pfAdd key values => swallow (store.pfadd rt key values)
  | .pfMerge destination sources => swallow (store.pfmerge destination sources)
  | .lPush key values => swallow (store.lpush key values)
  | .rPush key values => swallow (store.rpush key values)
  | .lPop key => swallow (store.lpop key)
  | .rPop key => swallow (store.rpop key)
  | .expire key ttlSecs => (.ok (), (store.expire now key ttlSecs).2)
  | .persist key => (.ok (), (store.persist now key).2)
  | .hSet key fields => swallow (store.hset key fields)
  | .hDel key fields => swallow (store.hdel key fields)
  | .hIncrBy key field amount => swallow (store.hincrby key field amount)

/-- `replay_wal` on the entries read from the log; the first error ends the startup. -/
def replayWal (rt : Runtime) : List (Nat × WalEntry) → KvStore → Except String KvStore
  | [], store => .ok store
  | (now, entry) :: entries, store =>
      match replayOperation rt now store entry.operation with
      | (.ok (), store') => replayWal rt entries store'
      | (.error e, _) => .error e.toString

/-- The entries of a log with the readings of the clock at which they are carried out. -/
def stamped (clock : Nat → Nat) (wal : List WalEntry) : List (Nat × WalEntry) :=
  wal.mapIdx fun i entry => (clock i, entry)

/-! ## Recovery and replicas -/

/-- The match shared by the two `apply_wal_entry` functions. -/
def applyOperation (rt : Runtime) (now : Nat) (store : KvStore) :
    WalOperation → Except KvStoreError Unit × KvStore
  | .set key value (some ttl) => propagate (store.setWithTtl now key (.str value) ttl)
  | .set key value none => propagate (store.set now key (.str value))
  | .delete key => (.ok (), (store.delete now key).2)
  | .incr key => propagate (store.incr key)
  | .decr key => propagate (store.decr key)
  | .incrBy key amount => propagate (store.incrby key amount)
  | .append key value => propagate (store.append now key value)
  | .getSet key value => propagate (store.getset now key (.str value))
  | .mset pairs => propagate (store.mset now pairs)
  | .pfAdd key values => swallow (store.pfadd rt key values)
  | .pfMerge destination sources => swallow (store.pfmerge destination sources)
  | .lPush key values => swallow (store.lpush key values)
  | .rPush key values => swallow (store.rpush key values)
  | .lPop key => swallow (store.lpop key)
  | .rPop key => swallow (store.rpop key)
  | .expire key ttlSecs => (.ok (), (store.expire now key ttlSecs).2)
  | .persist key => (.ok (), (store.persist now key).2)
  | .hSet key fields => swallow (store.hset key fields)
  | .hDel key fields => swallow (store.hdel key fields)
  | .hIncrBy key field amount => swallow (store.hincrby key field amount)

/-- `Pitr::apply_wal_entry`. -/
def Pitr.applyWalEntry (rt : Runtime) (now : Nat) (store : KvStore) (entry : WalEntry) :
    Except KvStoreError Unit × KvStore :=
  applyOperation rt now store entry.operation

/-- The loop of `recover_to_timestamp`: errors are logged and skipped, and the first entry past the
target ends it. -/
def Pitr.replayTo (rt : Runtime) (target : Nat) : List (Nat × WalEntry) → KvStore → KvStore
  | [], store => store
  | (now, entry) :: entries, store =>
      if entry.timestamp > target then store
      else replayTo rt target entries (Pitr.applyWalEntry rt now store entry).2

end Daikon
