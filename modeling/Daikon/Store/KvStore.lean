/-
# Daikon.Store.KvStore -- the key-value store (`kv_store.rs`)

One definition per method of the source. A method that takes `&mut self` and can fail returns its `Result`
next to the store it leaves behind, so what an error leaves changed is visible. `now` is the clock
(`SystemTime::now()` in whole seconds). Integer arithmetic on values wraps, as in the release build the
server ships as.

Two updates recur in the source and are named: `insertEntry` (put an entry and count its size) and
`rewriteEntry` (change an entry in place, which counts no bytes).

A hash map of the source is a tree map here, with the order of its keys. No method answers with that order
but those that list keys or fields, and the results about them leave the order open. The source's locks are
not in this module: a method has the store to itself while it runs, as it is called under the write lock, or
under the read lock if it takes `&self`.

The counters of `StoreStats` are natural numbers. None of them can reach 2^64 in a run of the program, and
where one is subtracted from, the source saturates, which is what subtraction of natural numbers does.
-/
import Daikon.Store.Value

namespace Daikon

/-- An operation queued between MULTI and EXEC. -/
inductive TransactionOp where
  | set (key : String) (value : Value) (expiresAt : Option Nat)
  | delete (key : String)
  | incr (key : String)
  | decr (key : String)
  | incrBy (key : String) (amount : Int64)
  | append (key value : String)
  deriving DecidableEq

/-- What happened to a key that subscribers of its keyspace channel are told about. -/
inductive KeyspaceEventKind where
  | set
  | delete
  | expired
  | evicted
  deriving DecidableEq, Repr

/-- The name of an event in the messages that are published for it. -/
def KeyspaceEventKind.toString : KeyspaceEventKind → String
  | .set => "set"
  | .delete => "del"
  | .expired => "expired"
  | .evicted => "evicted"

/-- One change of a key, as it waits in the store to be published. -/
structure KeyspaceEvent where
  kind : KeyspaceEventKind
  key : String
  timestamp : Nat
  deriving DecidableEq, Repr

/-- `HashMap<String, ValueWithTTL>`. -/
abbrev Entries := Std.ExtTreeMap String ValueWithTTL compare

/-- The store: the entries and the counters are what serde writes; the configuration, the recency list, the
queue of an open transaction and the events that wait are skipped by it, and a store that is read back has
their defaults. The recency list has its most recently used key at the end. -/
structure KvStore where
  store : Entries := ∅
  stats : StoreStats := {}
  config : StoreConfig := {}
  lruOrder : List String := []
  transactionQueue : Option (List TransactionOp) := none
  pendingKeyspaceEvents : List KeyspaceEvent := []
  deriving DecidableEq

namespace KvStore

/-- An empty store with this configuration. -/
def withConfig (config : StoreConfig) : KvStore := { config }

/-- An empty store with the default configuration. -/
def new : KvStore := withConfig {}

/-- MULTI has been called, and neither EXEC nor DISCARD since. -/
def inTransaction (s : KvStore) : Bool := s.transactionQueue.isSome

/-! ## Validation, events, recency -/

/-- A key is a nonempty text of at most `max_key_size` bytes. -/
def validateKey (s : KvStore) (key : String) : Except KvStoreError Unit :=
  if key = "" then .error (.invalidKey "Key cannot be empty")
  else if key.utf8ByteSize > s.config.maxKeySize then
    .error (.keyTooLarge key.utf8ByteSize s.config.maxKeySize)
  else .ok ()

/-- A value has an estimated size of at most `max_value_size` bytes. Only the methods that put a whole value
ask for it. -/
def validateValue (s : KvStore) (value : Value) : Except KvStoreError Unit :=
  if estimateValueSize value > s.config.maxValueSize then
    .error (.valueTooLarge (estimateValueSize value) s.config.maxValueSize)
  else .ok ()

/-- An event is kept only while notifications are switched on. -/
def emitKeyspaceEvent (s : KvStore) (now : Nat) (kind : KeyspaceEventKind) (key : String) : KvStore :=
  if s.config.keyspaceNotificationsEnabled then
    { s with pendingKeyspaceEvents := s.pendingKeyspaceEvents ++ [⟨kind, key, now⟩] }
  else s

/-- Hand over the events that wait, oldest first, and forget them. -/
def drainKeyspaceEvents (s : KvStore) : List KeyspaceEvent × KvStore :=
  (s.pendingKeyspaceEvents, { s with pendingKeyspaceEvents := [] })

/-- Replace the whole configuration. Nothing that is stored is checked against the new limits. -/
def setConfig (s : KvStore) (config : StoreConfig) : KvStore := { s with config }

/-- Switch the notifications and leave the rest of the configuration as it is. -/
def setKeyspaceNotificationsEnabled (s : KvStore) (enabled : Bool) : KvStore :=
  { s with config := { s.config with keyspaceNotificationsEnabled := enabled } }

/-- Move a key to the most recently used end. -/
def updateLru (s : KvStore) (key : String) : KvStore :=
  { s with lruOrder := s.lruOrder.filter (· ≠ key) ++ [key] }

/-- One turn of the eviction loop: drop the head of the recency list, and the entry if it has one. -/
def evictHead (s : KvStore) (now : Nat) (lruKey : String) (rest : List String) : KvStore :=
  match s.store[lruKey]? with
  | some entry =>
      let store := s.store.erase lruKey
      let evicted := { s with
        store
        stats := { s.stats with
          -- `saturating_sub`: bytes that were never counted may be given back
          memoryBytes := s.stats.memoryBytes - estimateValueSize entry.value
          evictions := s.stats.evictions + 1
          totalKeys := store.size } }
      { evicted.emitKeyspaceEvent now .evicted lruKey with lruOrder := rest }
  -- the list keeps keys that were deleted; such a turn frees nothing
  | none => { s with lruOrder := rest }

/-- The loop of `enforce_memory_limit`, on the recency list it consumes. -/
def enforceLoop (now : Nat) : List String → KvStore → KvStore
  | [], s => s
  | lruKey :: rest, s =>
      if s.stats.memoryBytes > s.config.maxMemoryBytes then
        enforceLoop now rest (s.evictHead now lruKey rest)
      else s

/-- Evict from the front of the recency list until the counted bytes are within the cap, or the list is used
up. A cap of zero means no cap. -/
def enforceMemoryLimit (s : KvStore) (now : Nat) : KvStore :=
  if s.config.maxMemoryBytes = 0 then s else enforceLoop now s.lruOrder s

/-- Put an entry under a key, count a write and the bytes of the value. -/
def insertEntry (s : KvStore) (key : String) (entry : ValueWithTTL) (size : Nat) : KvStore :=
  let store := s.store.insert key entry
  { s with
    store
    stats := { s.stats with
      totalWrites := s.stats.totalWrites + 1
      totalKeys := store.size
      memoryBytes := s.stats.memoryBytes + size } }.updateLru key

/-- Change the entry of a key in place: a write, but no bytes counted. -/
def rewriteEntry (s : KvStore) (key : String) (entry : ValueWithTTL) : KvStore :=
  { s with
    store := s.store.insert key entry
    stats := { s.stats with totalWrites := s.stats.totalWrites + 1 } }.updateLru key

/-- Put an operation at the end of the queue of the open transaction, if there is one. -/
def queueOperation (s : KvStore) (op : TransactionOp) : Except KvStoreError Unit × KvStore :=
  match s.transactionQueue with
  | some queue => (.ok (), { s with transactionQueue := some (queue ++ [op]) })
  | none => (.error (.operationFailed "No transaction in progress"), s)

/-! ## Reads -/

/-- The value of a key, unless its expiry has passed. A read does not count as a use of the key: the recency
list stays as it is. -/
def get (s : KvStore) (now : Nat) (key : String) : Option Value :=
  s.store[key]?.bind fun entry => if entry.expired now then none else some entry.value

/-- Whether `get` gives a value. -/
def exists_ (s : KvStore) (now : Nat) (key : String) : Bool := (s.get now key).isSome

/-- `get` for each key, in the order of the keys. -/
def mget (s : KvStore) (now : Nat) (keys : List String) : List (Option Value) :=
  keys.map (s.get now)

/-! ## Set and delete -/

/-- The common body of `set` and `set_with_ttl`. -/
def setWithExpiry (s : KvStore) (now : Nat) (key : String) (value : Value)
    (expiresAt : Option Nat) : Except KvStoreError Unit × KvStore :=
  match s.validateKey key with
  | .error e => (.error e, s)
  | .ok () =>
      match s.validateValue value with
      | .error e => (.error e, s)
      | .ok () =>
          if s.inTransaction then s.queueOperation (.set key value expiresAt)
          else
            let inserted := s.insertEntry key ⟨value, expiresAt⟩ (estimateValueSize value)
            let bounded :=
              if s.config.maxMemoryBytes > 0 ∧ s.config.lruEvictionEnabled then
                inserted.enforceMemoryLimit now
              else inserted
            (.ok (), bounded.emitKeyspaceEvent now .set key)

/-- Store a value without an expiry; an expiry that the key had is dropped. -/
def set (s : KvStore) (now : Nat) (key : String) (value : Value) : Except KvStoreError Unit × KvStore :=
  s.setWithExpiry now key value none

/-- Store a value that expires `ttl` seconds from now, or never where the sum is out of range. -/
def setWithTtl (s : KvStore) (now : Nat) (key : String) (value : Value) (ttl : Nat) :
    Except KvStoreError Unit × KvStore :=
  s.setWithExpiry now key value (checkedAdd now ttl)

/-- Remove a key and answer the value it had, expired or not. -/
def delete (s : KvStore) (now : Nat) (key : String) : Option Value × KvStore :=
  if s.inTransaction then
    -- the answer is the value that is there now, the removal comes with EXEC
    (s.store[key]?.map ValueWithTTL.value, (s.queueOperation (.delete key)).2)
  else
    match s.store[key]? with
    | some entry =>
        let removed := { s with
          store := s.store.erase key
          stats := { s.stats with totalDeletes := s.stats.totalDeletes + 1 } }
        -- neither the bytes nor the place in the recency list are given back
        (some entry.value, removed.emitKeyspaceEvent now .delete key)
    | none => (none, s)

/-! ## Atomic operations -/

/-- The common body of `incr`, `decr` and `incrby`. -/
def addToInt (s : KvStore) (key : String) (amount : Int64) : Except KvStoreError Int64 × KvStore :=
  match s.store[key]? with
  | some ⟨.int val, expiresAt⟩ => (.ok (val + amount), s.rewriteEntry key ⟨.int (val + amount), expiresAt⟩)
  | some entry => (.error (.typeMismatch key "Int" entry.value.typeName), s)
  | none => (.error (.keyNotFound key), s)

/-- One more than the stored integer, which is stored and answered. A missing key is an error. -/
def incr (s : KvStore) (key : String) : Except KvStoreError Int64 × KvStore := s.addToInt key 1

/-- One less than the stored integer. -/
def decr (s : KvStore) (key : String) : Except KvStoreError Int64 × KvStore := s.addToInt key (-1)

/-- The stored integer and the amount. -/
def incrby (s : KvStore) (key : String) (amount : Int64) : Except KvStoreError Int64 × KvStore :=
  s.addToInt key amount

/-- Put a text behind the stored string and answer the length in bytes. On a missing key it is a `set`, so
it is queued in a transaction, while on a stored string it acts at once. -/
def append (s : KvStore) (now : Nat) (key value : String) : Except KvStoreError Nat × KvStore :=
  match s.store[key]? with
  | some ⟨.str old, expiresAt⟩ =>
      (.ok (old ++ value).utf8ByteSize, s.rewriteEntry key ⟨.str (old ++ value), expiresAt⟩)
  | some entry => (.error (.typeMismatch key "Str" entry.value.typeName), s)
  | none =>
      match s.set now key (.str value) with
      | (.error e, s') => (.error e, s')
      | (.ok (), s') => (.ok value.utf8ByteSize, s')

/-- Store a value and answer the one before it, which is read first and may have expired. -/
def getset (s : KvStore) (now : Nat) (key : String) (value : Value) :
    Except KvStoreError (Option Value) × KvStore :=
  let oldValue := s.store[key]?.map ValueWithTTL.value
  match s.set now key value with
  | (.error e, s') => (.error e, s')
  | (.ok (), s') => (.ok oldValue, s')

/-- The loop of `mset`; a refused pair leaves the pairs before it in place. Inside a transaction
`set` queues the pair after the same two checks, as the source's own loop there does. -/
def mset (s : KvStore) (now : Nat) : List (String × String) → Except KvStoreError Unit × KvStore
  | [] => (.ok (), s)
  | (key, value) :: pairs =>
      match s.set now key (.str value) with
      | (.error e, s') => (.error e, s')
      | (.ok (), s') => mset s' now pairs

/-! ## Expiry -/

/-- Give a key that has not expired an expiry `ttl` seconds from now, and answer whether it has one. The
event is the one of a set. -/
def expire (s : KvStore) (now : Nat) (key : String) (ttl : Nat) : Bool × KvStore :=
  match s.store[key]? with
  | none => (false, s)
  | some entry =>
      if entry.expired now then (false, s)
      else
        let updated := { s with
          store := s.store.insert key { entry with expiresAt := checkedAdd now ttl } }
        (true, updated.emitKeyspaceEvent now .set key)

/-- Take the expiry of a key away, and answer whether there was one. It does not ask if it has passed. -/
def persist (s : KvStore) (now : Nat) (key : String) : Bool × KvStore :=
  match s.store[key]? with
  | none => (false, s)
  | some entry =>
      if entry.expiresAt.isNone then (false, s)
      else
        let updated := { s with store := s.store.insert key { entry with expiresAt := none } }
        (true, updated.emitKeyspaceEvent now .set key)

/-- Remove every entry whose expiry has come, and report each. -/
def cleanupExpired (s : KvStore) (now : Nat) : Nat × KvStore :=
  let expired := (s.store.toList.filter fun p =>
    match p.2.expiresAt with
    -- reads hide an entry one second later (`expired`)
    | some exp => now ≥ exp
    | none => false).map Prod.fst
  let cleaned := expired.foldl
    (fun s key => { s with store := s.store.erase key }.emitKeyspaceEvent now .expired key) s
  (expired.length,
    { cleaned with stats := { cleaned.stats with expiredKeys := cleaned.stats.expiredKeys + expired.length } })

/-! ## HyperLogLog keys -/

/-- Store an empty sketch of a given precision at a key that is not there, not even with an expired entry.
-/
def pfreserve (s : KvStore) (key : String) (precision : Nat) : Except KvStoreError Unit × KvStore :=
  match s.validateKey key with
  | .error e => (.error e, s)
  | .ok () =>
      if s.store.contains key then (.error (.operationFailed s!"Key '{key}' already exists"), s)
      else
        let value := Value.hyperLogLog (HyperLogLog.new precision)
        (.ok (), s.insertEntry key ⟨value, none⟩ (estimateValueSize value))

/-- Add values to the sketch at a key, made with the default precision where there is none, and answer its
estimate. The bytes counted for a new one are those of an empty sketch. -/
def pfadd (s : KvStore) (rt : Runtime) (key : String) (values : List String) :
    Except KvStoreError Nat × KvStore :=
  match s.validateKey key with
  | .error e => (.error e, s)
  | .ok () =>
      if values.isEmpty then
        (.error (.invalidValue "PFADD requires at least one value"), s)
      else
        let addAll := fun hll => values.foldl (fun hll v => (HyperLogLog.add rt.hashValue hll v).1) hll
        match s.store[key]? with
        | some ⟨.hyperLogLog hll, expiresAt⟩ =>
            let hll := addAll hll
            (.ok hll.count, s.rewriteEntry key ⟨.hyperLogLog hll, expiresAt⟩)
        | some entry => (.error (.typeMismatch key "HyperLogLog" entry.value.typeName), s)
        | none =>
            let hll := addAll HyperLogLog.default
            (.ok hll.count, s.insertEntry key ⟨.hyperLogLog hll, none⟩
              (estimateValueSize (.hyperLogLog HyperLogLog.default)))

/-- Merge the sources into `merged`, skipping the destination and missing keys. -/
def mergeSources (s : KvStore) (destination : String) :
    List String → HyperLogLog → Except KvStoreError HyperLogLog
  | [], merged => .ok merged
  | source :: sources, merged =>
      -- the destination is in `merged` already
      if source = destination then mergeSources s destination sources merged
      else
        match s.store[source]? with
        | none => mergeSources s destination sources merged
        | some ⟨.hyperLogLog hll, _⟩ =>
            match merged.merge hll with
            | .error e => .error e
            | .ok merged => mergeSources s destination sources merged
        | some entry => .error (.typeMismatch source "HyperLogLog" entry.value.typeName)

/-- Merge the sketch at the destination (an empty one of the default precision where there is none) with
those of the sources, store it there and answer its estimate. Nothing is stored if any source is refused. -/
def pfmerge (s : KvStore) (destination : String) (sourceKeys : List String) :
    Except KvStoreError Nat × KvStore :=
  match s.validateKey destination with
  | .error e => (.error e, s)
  | .ok () =>
      if sourceKeys.isEmpty then
        (.error (.invalidValue "PFMERGE requires at least one source key"), s)
      else
        let start : Except KvStoreError HyperLogLog :=
          match s.store[destination]? with
          | some ⟨.hyperLogLog hll, _⟩ => .ok hll
          | some entry => .error (.typeMismatch destination "HyperLogLog" entry.value.typeName)
          | none => .ok HyperLogLog.default
        match start.bind (mergeSources s destination sourceKeys) with
        | .error e => (.error e, s)
        | .ok merged =>
            -- an expiry that the destination had is dropped
            let entry : ValueWithTTL := ⟨.hyperLogLog merged, none⟩
            if s.store.contains destination then (.ok merged.count, s.rewriteEntry destination entry)
            else (.ok merged.count, s.insertEntry destination entry (estimateValueSize entry.value))

/-! ## Transactions -/

/-- Open a transaction with an empty queue. -/
def multi (s : KvStore) : Except KvStoreError Unit × KvStore :=
  if s.transactionQueue.isSome then (.error (.operationFailed "Transaction already in progress"), s)
  else (.ok (), { s with transactionQueue := some [] })

/-- The common arm of the queued counters; a missing key counts from zero. -/
def execAdd (s : KvStore) (key : String) (amount : Int64) : String × KvStore :=
  match s.store[key]? with
  | some ⟨.int i, expiresAt⟩ => (toString (i + amount), s.rewriteEntry key ⟨.int (i + amount), expiresAt⟩)
  -- a mismatch is counted as a write, and the next operation is carried out
  | some entry => ("ERR: Type mismatch", s.rewriteEntry key entry)
  | none => (toString amount, s.rewriteEntry key ⟨.int amount, none⟩)

/-- One queued operation, with its line of the result. -/
def execOp (s : KvStore) : TransactionOp → String × KvStore
  | .set key value expiresAt => ("OK", s.rewriteEntry key ⟨value, expiresAt⟩)
  | .delete key =>
      ("OK", { s with
        store := s.store.erase key
        stats := { s.stats with totalDeletes := s.stats.totalDeletes + 1 } })
  | .incr key => s.execAdd key 1
  | .decr key => s.execAdd key (-1)
  | .incrBy key amount => s.execAdd key amount
  | .append key value =>
      match s.store[key]? with
      | some ⟨.str old, expiresAt⟩ => ("OK", s.rewriteEntry key ⟨.str (old ++ value), expiresAt⟩)
      | some entry => ("ERR: Type mismatch", s.rewriteEntry key entry)
      | none => ("OK", s.rewriteEntry key ⟨.str value, none⟩)

/-- The queued operations in turn. None of them can stop the rest. -/
def execOps (s : KvStore) : List TransactionOp → List String × KvStore
  | [] => ([], s)
  | op :: ops =>
      let r := s.execOp op
      let rest := execOps r.2 ops
      (r.1 :: rest.1, rest.2)

/-- Close the open transaction and carry out its queue, answering a line for each operation. -/
def exec (s : KvStore) : Except KvStoreError (List String) × KvStore :=
  match s.transactionQueue with
  | none => (.error (.operationFailed "No transaction in progress"), s)
  | some queue =>
      let r := execOps { s with transactionQueue := none } queue
      (.ok r.1, r.2)

/-- Close the open transaction and forget its queue. What acted at once while it was open stays. -/
def discard (s : KvStore) : Except KvStoreError Unit × KvStore :=
  if s.transactionQueue.isNone then (.error (.operationFailed "No transaction in progress"), s)
  else (.ok (), { s with transactionQueue := none })

end KvStore

end Daikon
