/-
# Daikon.Store.Reads -- the methods that read (`kv_store.rs`)

All but the two that tell the remaining time go through `get`, which hides an entry past its expiry.
`Read` has them as data.

None of the reads counts hits or misses, and none moves a key in the recency list: they take the store by
shared reference. The counters of reads are in `StoreStats` all the same, and stay at zero.

The pattern matcher is here without its indices. The one that the source has, which walks two slices, is in
`Daikon.Store.Glob` together with the language that the two of them accept.
-/
import Daikon.Store.Collections

namespace Daikon

namespace KvStore

/-! ## Values -/

/-- The text of a string value. A value of another type counts as missing, in this and the next three. -/
def getString (s : KvStore) (now : Nat) (key : String) : Option String :=
  match s.get now key with
  | some (.str x) => some x
  | _ => none

/-- The integer of an `Int` value. -/
def getI64 (s : KvStore) (now : Nat) (key : String) : Option Int64 :=
  match s.get now key with
  | some (.int x) => some x
  | _ => none

/-- The number of a `Float` value. -/
def getF64 (s : KvStore) (now : Nat) (key : String) : Option Float :=
  match s.get now key with
  | some (.float x) => some x
  | _ => none

/-- The truth value of a `Bool` value. -/
def getBool (s : KvStore) (now : Nat) (key : String) : Option Bool :=
  match s.get now key with
  | some (.bool x) => some x
  | _ => none

/-- How many of the keys exist; a key given twice counts twice. -/
def existsMany (s : KvStore) (now : Nat) (keys : List String) : Nat := keys.countP (s.exists_ now)

/-! ## The remaining time -/

/-- `-2` for a missing or expired key, `-1` for one without an expiry. -/
def ttlSeconds (s : KvStore) (now : Nat) (key : String) : Int :=
  match s.store[key]? with
  | none => -2
  | some entry =>
      match entry.expiresAt with
      | none => -1
      | some exp => if now > exp then -2 else min (exp - now : Nat) (2 ^ 63 - 1 : Nat)

/-- `i64::saturating_mul`. -/
def pttlMillis (s : KvStore) (now : Nat) (key : String) : Int :=
  let ttlSecs := s.ttlSeconds now key
  if ttlSecs < 0 then ttlSecs else min (ttlSecs * 1000) (2 ^ 63 - 1)

/-! ## Sketches -/

/-- What `hll_info` tells of a sketch. -/
structure HllInfo where
  precision : Nat
  registers : Nat
  memoryBytes : Nat
  estimatedCount : Nat
  deriving DecidableEq, Repr

/-- The common body of the reads of a sketch, for which a missing key is an error. -/
def readHll {α : Type} (s : KvStore) (now : Nat) (key : String) (f : HyperLogLog → α) :
    Except KvStoreError α :=
  match s.get now key with
  | some (.hyperLogLog hll) => .ok (f hll)
  | some other => .error (.typeMismatch key "HyperLogLog" other.typeName)
  | none => .error (.keyNotFound key)

/-- The estimate of the sketch at a key. -/
def pfcount (s : KvStore) (now : Nat) (key : String) : Except KvStoreError Nat :=
  s.readHll now key HyperLogLog.count

/-- Size and estimate of the sketch at a key. -/
def hllInfo (s : KvStore) (now : Nat) (key : String) : Except KvStoreError HllInfo :=
  s.readHll now key fun hll => ⟨hll.precision, hll.registers.length, hll.memoryBytes, hll.count⟩

/-! ## Hashes -/

/-- The common body of the reads of a hash, for which a missing key is empty. -/
def readHash {α : Type} (s : KvStore) (now : Nat) (key : String) (f : Fields → α) (missing : α) :
    Except KvStoreError α :=
  match s.get now key with
  | some (.hash map) => .ok (f map)
  | some other => .error (.typeMismatch key "Hash" other.typeName)
  | none => .ok missing

/-- The text of a field, if the hash has it. -/
def hget (s : KvStore) (now : Nat) (key field : String) : Except KvStoreError (Option String) :=
  s.readHash now key (fun map => map[field]?) none

/-- The texts of fields, in the order asked for. -/
def hmget (s : KvStore) (now : Nat) (key : String) (fields : List String) :
    Except KvStoreError (List (Option String)) :=
  s.readHash now key (fun map => fields.map fun f => map[f]?) (fields.map fun _ => none)

/-- The whole hash. -/
def hgetall (s : KvStore) (now : Nat) (key : String) : Except KvStoreError Fields :=
  s.readHash now key id ∅

/-- The names of the fields, here in the order of the tree where the source gives that of the hash map. -/
def hkeys (s : KvStore) (now : Nat) (key : String) : Except KvStoreError (List String) :=
  s.readHash now key (fun map => map.toList.map Prod.fst) []

/-- The texts of all fields, in the order of `hkeys`. -/
def hvals (s : KvStore) (now : Nat) (key : String) : Except KvStoreError (List String) :=
  s.readHash now key (fun map => map.toList.map Prod.snd) []

/-- The number of fields. -/
def hlen (s : KvStore) (now : Nat) (key : String) : Except KvStoreError Nat :=
  s.readHash now key (fun map => map.size) 0

/-- Whether the hash has the field. -/
def hexists (s : KvStore) (now : Nat) (key field : String) : Except KvStoreError Bool :=
  s.readHash now key (fun map => map.contains field) false

end KvStore

/-! ## Patterns -/

/-- `match_recursive`: `*` stands for any characters, `?` for one. -/
def matchRecursive : List Char → List Char → Bool
  | text, [] => text.isEmpty
  | text, '*' :: pattern => text.tails.any fun rest => matchRecursive rest pattern
  | t :: text, p :: pattern => (p == '?' || p == t) && matchRecursive text pattern
  | [], _ :: _ => false

/-- The pattern matches the whole text. -/
def matchesGlob (text pattern : String) : Bool := matchRecursive text.toList pattern.toList

example : matchesGlob "user:1" "user:*" = true ∧ matchesGlob "user:1" "user:??" = false := by
  decide +kernel

/-- `keys`: the keys that match and have not expired. -/
def KvStore.keysMatching (s : KvStore) (now : Nat) (pattern : String) : List String :=
  (s.store.toList.filter fun p => !p.2.expired now && matchesGlob p.1 pattern).map Prod.fst

/-! ## Reads as data -/

/-- The methods that read keys. -/
inductive Read where
  | get (key : String)
  | getString (key : String)
  | getI64 (key : String)
  | getF64 (key : String)
  | getBool (key : String)
  | mget (keys : List String)
  | exists_ (key : String)
  | existsMany (keys : List String)
  | ttlSeconds (key : String)
  | pttlMillis (key : String)
  | keys (pattern : String)
  | pfcount (key : String)
  | hllInfo (key : String)
  | lrange (key : String) (start stop : Int)
  | llen (key : String)
  | hget (key field : String)
  | hmget (key : String) (fields : List String)
  | hgetall (key : String)
  | hkeys (key : String)
  | hvals (key : String)
  | hlen (key : String)
  | hexists (key field : String)

/-- What a read returns. -/
inductive ReadReply where
  | value (v : Option Value)
  | str (x : Option String)
  | int (x : Option Int64)
  | float (x : Option Float)
  | bool (x : Option Bool)
  | values (vs : List (Option Value))
  | found (b : Bool)
  | count (n : Nat)
  | time (t : Int)
  | keys (ks : List String)
  | number (r : Except KvStoreError Nat)
  | info (r : Except KvStoreError KvStore.HllInfo)
  | items (r : Except KvStoreError (List String))
  | field (r : Except KvStoreError (Option String))
  | fields (r : Except KvStoreError (List (Option String)))
  | map (r : Except KvStoreError Fields)
  | flag (r : Except KvStoreError Bool)

/-- The read of the store that `Read` names. -/
def KvStore.read (s : KvStore) (now : Nat) : Read → ReadReply
  | .get key => .value (s.get now key)
  | .getString key => .str (s.getString now key)
  | .getI64 key => .int (s.getI64 now key)
  | .getF64 key => .float (s.getF64 now key)
  | .getBool key => .bool (s.getBool now key)
  | .mget keys => .values (s.mget now keys)
  | .exists_ key => .found (s.exists_ now key)
  | .existsMany keys => .count (s.existsMany now keys)
  | .ttlSeconds key => .time (s.ttlSeconds now key)
  | .pttlMillis key => .time (s.pttlMillis now key)
  | .keys pattern => .keys (s.keysMatching now pattern)
  | .pfcount key => .number (s.pfcount now key)
  | .hllInfo key => .info (s.hllInfo now key)
  | .lrange key start stop => .items (s.lrange now key start stop)
  | .llen key => .number (s.llen now key)
  | .hget key field => .field (s.hget now key field)
  | .hmget key fields => .fields (s.hmget now key fields)
  | .hgetall key => .map (s.hgetall now key)
  | .hkeys key => .items (s.hkeys now key)
  | .hvals key => .items (s.hvals now key)
  | .hlen key => .number (s.hlen now key)
  | .hexists key field => .flag (s.hexists now key field)

end Daikon
