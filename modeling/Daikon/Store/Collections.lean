/-
# Daikon.Store.Collections -- list and hash operations (`kv_store.rs`)

Lists are `Vec<String>` and hashes `HashMap<String, String>`. A key that is missing is created by
the pushing and setting operations and reads as empty; a key of another type is refused.

The four list operations are two bodies with parameters, and so are the increments of a hash field; each
keeps its own definition, as that body at its own values. A list operation on an existing key rewrites the
entry in place and keeps its expiry, and one that creates the key adds the size of the value to the counter
of bytes; what happens to the counter when a value grows in place is the store's business and is wrong in
the way `Daikon.Store.Memory` says.

None of these operations looks whether a transaction is open, none evicts, and none emits an event. A pop
may leave an empty list behind and a removal an empty hash; the key stays.
-/
import Daikon.Store.KvStore

namespace Daikon.KvStore

/-! ## Lists -/

/-- The loop `list.insert(0, v)` over the values. -/
def pushFront (list values : List String) : List String :=
  values.foldl (fun list v => v :: list) list

/-- The common body of `lpush` and `rpush`; `push` extends a list by the values. -/
def pushWith (push : List String → List String → List String) (s : KvStore) (key : String)
    (values : List String) : Except KvStoreError Nat × KvStore :=
  match s.validateKey key with
  | .error e => (.error e, s)
  | .ok () =>
      match s.store[key]? with
      | some ⟨.list list, expiresAt⟩ =>
          let list := push list values
          (.ok list.length, s.rewriteEntry key ⟨.list list, expiresAt⟩)
      | some entry => (.error (.typeMismatch key "List" entry.value.typeName), s)
      | none =>
          let list := push [] values
          (.ok list.length, s.insertEntry key ⟨.list list, none⟩ (estimateValueSize (.list list)))

/-- Put the values in front of the list, one after the other, so that the last of them comes first. The
answer is the new length. -/
def lpush (s : KvStore) (key : String) (values : List String) : Except KvStoreError Nat × KvStore :=
  s.pushWith pushFront key values

/-- Put the values behind the list. -/
def rpush (s : KvStore) (key : String) (values : List String) : Except KvStoreError Nat × KvStore :=
  s.pushWith (· ++ ·) key values

/-- The common body of `lpop` and `rpop`; `pop` splits a nonempty list. -/
def popWith (pop : List String → Option (String × List String)) (s : KvStore) (key : String) :
    Except KvStoreError (Option String) × KvStore :=
  match s.store[key]? with
  | some ⟨.list list, expiresAt⟩ =>
      match pop list with
      | none => (.ok none, s)
      | some (val, rest) => (.ok (some val), s.rewriteEntry key ⟨.list rest, expiresAt⟩)
  | some entry => (.error (.typeMismatch key "List" entry.value.typeName), s)
  | none => (.ok none, s)

/-- `list.remove(0)`, of a nonempty list. -/
def popFront : List String → Option (String × List String)
  | [] => none
  | val :: rest => some (val, rest)

/-- `list.pop()`. -/
def popBack (list : List String) : Option (String × List String) :=
  list.getLast?.map fun val => (val, list.dropLast)

/-- Take the first value of the list. A list that is emptied stays in the store. -/
def lpop (s : KvStore) (key : String) : Except KvStoreError (Option String) × KvStore :=
  s.popWith popFront key

/-- Take the last value of the list. -/
def rpop (s : KvStore) (key : String) : Except KvStoreError (Option String) × KvStore :=
  s.popWith popBack key

/-- `as usize` on a 64-bit target. -/
def asUsize (i : Int) : Nat := (i % 2 ^ 64).toNat

/-- Elements `start..=stop`, negative indices counted from the end. -/
def lrange (s : KvStore) (now : Nat) (key : String) (start stop : Int) :
    Except KvStoreError (List String) :=
  match s.get now key with
  | some (.list list) =>
      let len : Int := list.length
      let start := if start < 0 then asUsize (max (len + start) 0) else asUsize (min start len)
      let stop := if stop < 0 then asUsize (max (len + stop) 0) else asUsize (min stop (len - 1))
      if start > stop ∨ start ≥ list.length then .ok []
      else .ok ((list.take (stop + 1)).drop start)
  | some other => .error (.typeMismatch key "List" other.typeName)
  | none => .ok []

/-- The length of the list at a key, zero where there is none. -/
def llen (s : KvStore) (now : Nat) (key : String) : Except KvStoreError Nat :=
  match s.get now key with
  | some (.list list) => .ok list.length
  | some other => .error (.typeMismatch key "List" other.typeName)
  | none => .ok 0

/-! ## Hashes -/

/-- The loop of `hset` on an existing hash: insert every field and count the new ones. -/
def insertFields (map fields : Fields) : Fields × Nat :=
  fields.toList.foldl
    (fun acc p => (acc.1.insert p.1 p.2, if acc.1.contains p.1 then acc.2 else acc.2 + 1)) (map, 0)

/-- Set fields of the hash and answer how many of them are new. -/
def hset (s : KvStore) (key : String) (fields : Fields) : Except KvStoreError Nat × KvStore :=
  match s.validateKey key with
  | .error e => (.error e, s)
  | .ok () =>
      match s.store[key]? with
      | some ⟨.hash map, expiresAt⟩ =>
          let r := insertFields map fields
          (.ok r.2, s.rewriteEntry key ⟨.hash r.1, expiresAt⟩)
      | some entry => (.error (.typeMismatch key "Hash" entry.value.typeName), s)
      | none =>
          (.ok fields.size,
            s.insertEntry key ⟨.hash fields, none⟩ (estimateValueSize (.hash fields)))

/-- The loop of `hdel`: remove every field and count those that were there. -/
def removeFields (map : Fields) (fields : List String) : Fields × Nat :=
  fields.foldl
    (fun acc f => (acc.1.erase f, if acc.1.contains f then acc.2 + 1 else acc.2)) (map, 0)

/-- Remove fields of the hash and answer how many were there. A hash without fields stays in the store. It
counts as a use of the key even if nothing was removed, but only a removal counts as a write. -/
def hdel (s : KvStore) (key : String) (fields : List String) : Except KvStoreError Nat × KvStore :=
  match s.store[key]? with
  | some ⟨.hash map, expiresAt⟩ =>
      let r := removeFields map fields
      let removed := { s with
        store := s.store.insert key ⟨.hash r.1, expiresAt⟩
        stats := if r.2 > 0 then { s.stats with totalWrites := s.stats.totalWrites + 1 } else s.stats }
      (.ok r.2, removed.updateLru key)
  | some entry => (.error (.typeMismatch key "Hash" entry.value.typeName), s)
  | none => (.ok 0, s)

/-- The common body of `hincrby` and `hincrbyfloat`: read the field as a number (zero if it is
missing or not one), add, and write the sum back as text. -/
def addToField {N : Type} (parse : String → Option N) (zero : N) (add : N → N → N)
    (show_ : N → String) (s : KvStore) (key field : String) (amount : N) :
    Except KvStoreError N × KvStore :=
  match s.validateKey key with
  | .error e => (.error e, s)
  | .ok () =>
      match s.store[key]? with
      | some ⟨.hash map, expiresAt⟩ =>
          let current := (map[field]?.map fun v => (parse v).getD zero).getD zero
          let next := add current amount
          (.ok next, s.rewriteEntry key ⟨.hash (map.insert field (show_ next)), expiresAt⟩)
      | some entry => (.error (.typeMismatch key "Hash" entry.value.typeName), s)
      | none =>
          let map : Fields := (∅ : Fields).insert field (show_ amount)
          (.ok amount, s.insertEntry key ⟨.hash map, none⟩ (estimateValueSize (.hash map)))

/-- Add to the number that a field holds as text. A text that is no number counts as zero. -/
def hincrby (s : KvStore) (key field : String) (amount : Int64) : Except KvStoreError Int64 × KvStore :=
  s.addToField parseI64 0 (· + ·) toString key field amount

/-- The same with floats, as far as their texts carry them. -/
def hincrbyfloat (s : KvStore) (rt : Runtime) (key field : String) (amount : Float) :
    Except KvStoreError Float × KvStore :=
  s.addToField rt.f64Parse 0.0 (· + ·) rt.f64ToString key field amount

end Daikon.KvStore
