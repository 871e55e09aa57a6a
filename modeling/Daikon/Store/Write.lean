/-
# Daikon.Store.Write -- store calls as data, and what they do key by key

`Write` reifies the mutating methods that the server, the log and the replicas call. The abstract
view of a store is its map from keys to entries; every such call but the HyperLogLog merge acts on
that map as a list of cell operations, one per named key (`CellOp`). `Daikon.Store.Refine` proves
that the calls do what their cell operations say.

A cell operation has two parts: what it does to the entry of its key, and how many bytes it counts. They are
separate because the source keeps them separate. An edit in place counts nothing, however much the value
grows, and a creation counts the size of the first value.

What a cell does depends on the limits, on whether a transaction is open and on the clock, all of which are
arguments, and on nothing else of the store. This is what allows a list of calls to be replaced by a list of
cells that was computed beforehand, as long as no call changes the limits or the state of the transaction,
and none does (`write_frame`).
-/
import Daikon.Lib.KeyedLog
import Daikon.Store.Collections

namespace Daikon

open Lib (KeyUpdate)
open Lib.KeyedLog (run cost)

/-- The mutating store calls made by the HTTP handlers, by replay, by recovery and by replicas. -/
inductive Write where
  | set (key : String) (value : Value)
  | setWithTtl (key : String) (value : Value) (ttl : Nat)
  | delete (key : String)
  | incr (key : String)
  | decr (key : String)
  | incrby (key : String) (amount : Int64)
  | append (key value : String)
  | getset (key : String) (value : Value)
  | mset (pairs : List (String × String))
  | expire (key : String) (ttl : Nat)
  | persist (key : String)
  | pfadd (key : String) (values : List String)
  | pfmerge (destination : String) (sources : List String)
  | lpush (key : String) (values : List String)
  | rpush (key : String) (values : List String)
  | lpop (key : String)
  | rpop (key : String)
  | hset (key : String) (fields : Fields)
  | hdel (key : String) (fields : List String)
  | hincrby (key field : String) (amount : Int64)
  | hincrbyfloat (key field : String) (amount : Float)

/-- What a store call returns on success. -/
inductive Reply where
  | unit
  | bool (b : Bool)
  | nat (n : Nat)
  | int (i : Int64)
  | float (x : Float)
  | value (v : Option Value)
  | popped (v : Option String)

namespace KvStore

/-- Give a method's result the common reply type. -/
def reply {α : Type} (f : α → Reply) (r : Except KvStoreError α × KvStore) :
    Except KvStoreError Reply × KvStore :=
  (r.1.map f, r.2)

/-- Make the call. -/
def write (s : KvStore) (rt : Runtime) (now : Nat) : Write → Except KvStoreError Reply × KvStore
  | .set key value => reply (fun _ => .unit) (s.set now key value)
  | .setWithTtl key value ttl => reply (fun _ => .unit) (s.setWithTtl now key value ttl)
  | .delete key => (.ok (.value (s.delete now key).1), (s.delete now key).2)
  | .incr key => reply .int (s.incr key)
  | .decr key => reply .int (s.decr key)
  | .incrby key amount => reply .int (s.incrby key amount)
  | .append key value => reply .nat (s.append now key value)
  | .getset key value => reply .value (s.getset now key value)
  | .mset pairs => reply (fun _ => .unit) (s.mset now pairs)
  | .expire key ttl => (.ok (.bool (s.expire now key ttl).1), (s.expire now key ttl).2)
  | .persist key => (.ok (.bool (s.persist now key).1), (s.persist now key).2)
  | .pfadd key values => reply .nat (s.pfadd rt key values)
  | .pfmerge destination sources => reply .nat (s.pfmerge destination sources)
  | .lpush key values => reply .nat (s.lpush key values)
  | .rpush key values => reply .nat (s.rpush key values)
  | .lpop key => reply .popped (s.lpop key)
  | .rpop key => reply .popped (s.rpop key)
  | .hset key fields => reply .nat (s.hset key fields)
  | .hdel key fields => reply .nat (s.hdel key fields)
  | .hincrby key field amount => reply .int (s.hincrby key field amount)
  | .hincrbyfloat key field amount => reply .float (s.hincrbyfloat rt key field amount)

@[simp] theorem reply_snd {α : Type} (f : α → Reply) (r : Except KvStoreError α × KvStore) :
    (reply f r).2 = r.2 := rfl

end KvStore

/-! ## Cell operations -/

/-- What a call does at one key. -/
inductive CellOp where
  /-- Put this value, whatever was there. -/
  | assign (value : Value) (expiresAt : Option Nat)
  | remove
  /-- Change the value in place; where there is none, create it if a first value is given. -/
  | edit (f : Value → Value) (first : Option Value)
  /-- Give a present entry another expiry. -/
  | retime (g : ValueWithTTL → Option Nat)

namespace CellOp

/-- Nothing happens: the call is refused, or queued by an open transaction. -/
def nop : CellOp := edit id none

/-- The effect on the entry at the key. -/
def onEntry : CellOp → Option ValueWithTTL → Option ValueWithTTL
  | assign value expiresAt, _ => some ⟨value, expiresAt⟩
  | remove, _ => none
  | edit f _, some entry => some { entry with value := f entry.value }
  | edit _ first, none => first.map (⟨·, none⟩)
  | retime g, some entry => some { entry with expiresAt := g entry }
  | retime _, none => none

/-- The effect on the value at the key, expiry aside. -/
def onValue : CellOp → Option Value → Option Value
  | assign value _, _ => some value
  | remove, _ => none
  | edit f _, some value => some (f value)
  | edit _ first, none => first
  | retime _, v => v

/-- The bytes the store counts for it. -/
def bytes : CellOp → Option ValueWithTTL → Nat
  | assign value _, _ => estimateValueSize value
  | edit _ (some first), none => estimateValueSize first
  | _, _ => 0

/-- The value part of the effect reads only the value. -/
theorem onEntry_value (op : CellOp) (e : Option ValueWithTTL) :
    (op.onEntry e).map ValueWithTTL.value = op.onValue (e.map ValueWithTTL.value) := by
  cases op with
  | assign value expiresAt => rfl
  | remove => rfl
  | edit f first => cases e <;> cases first <;> rfl
  | retime g => cases e <;> rfl

@[simp] theorem onEntry_nop (e : Option ValueWithTTL) : nop.onEntry e = e := by cases e <;> rfl

@[simp] theorem bytes_nop (e : Option ValueWithTTL) : nop.bytes e = 0 := by cases e <;> rfl

end CellOp

/-- The key passes `validate_key`. -/
def StoreConfig.ValidKey (cfg : StoreConfig) (key : String) : Prop :=
  key ≠ "" ∧ key.utf8ByteSize ≤ cfg.maxKeySize

/-- Key and value pass `validate_key` and `validate_value`. -/
def StoreConfig.Valid (cfg : StoreConfig) (key : String) (value : Value) : Prop :=
  cfg.ValidKey key ∧ estimateValueSize value ≤ cfg.maxValueSize

instance (cfg : StoreConfig) (key : String) : Decidable (cfg.ValidKey key) :=
  inferInstanceAs (Decidable (_ ∧ _))

instance (cfg : StoreConfig) (key : String) (value : Value) : Decidable (cfg.Valid key value) :=
  inferInstanceAs (Decidable (_ ∧ _))

namespace CellOp

section

variable (cfg : StoreConfig) (inTx : Bool)

/-- `set`: refused outside the limits, queued inside a transaction. -/
def assignIf (key : String) (value : Value) (expiresAt : Option Nat) : CellOp :=
  if cfg.Valid key value ∧ inTx = false then assign value expiresAt else nop

/-- `mset`: pair after pair; the first pair outside the limits ends the call. -/
def assignAll : List (String × String) → List (String × CellOp)
  | [] => []
  | (key, value) :: pairs =>
      if cfg.Valid key (.str value) then (key, assignIf cfg inTx key (.str value) none) :: assignAll pairs
      else []

variable {cfg inTx} in
/-- The cells of MSET put a pair each. -/
theorem mem_assignAll {pairs : List (String × String)} {c : String × CellOp}
    (h : c ∈ assignAll cfg inTx pairs) :
    ∃ value, (c.1, value) ∈ pairs ∧ c.2 = assignIf cfg inTx c.1 (.str value) none := by
  induction pairs with
  | nil => cases h
  | cons pair pairs ih =>
      rw [assignAll] at h
      split at h
      · rcases List.mem_cons.mp h with rfl | h
        · exact ⟨pair.2, List.mem_cons_self, rfl⟩
        · obtain ⟨value, hmem, hop⟩ := ih h
          exact ⟨value, List.mem_cons_of_mem _ hmem, hop⟩
      · cases h

/-- The cell of INCR, DECR and INCRBY. -/
def addInt (amount : Int64) : CellOp :=
  edit (fun | .int i => .int (i + amount) | v => v) none

/-- The cell of APPEND, which creates its key only at once and within the limits. -/
def appendStr (key value : String) : CellOp :=
  edit (fun | .str old => .str (old ++ value) | v => v)
    (if cfg.Valid key (.str value) ∧ inTx = false then some (.str value) else none)

/-- The cell of a push to either end. -/
def pushList (push : List String → List String → List String) (key : String) (values : List String) :
    CellOp :=
  if cfg.ValidKey key then
    edit (fun | .list list => .list (push list values) | v => v) (some (.list (push [] values)))
  else nop

/-- The cell of a pop from either end. -/
def popList (pop : List String → Option (String × List String)) : CellOp :=
  edit (fun | .list list => .list ((pop list).elim list Prod.snd) | v => v) none

/-- The cell of HSET. -/
def setFields (key : String) (fields : Fields) : CellOp :=
  if cfg.ValidKey key then
    edit (fun | .hash map => .hash (KvStore.insertFields map fields).1 | v => v) (some (.hash fields))
  else nop

/-- The cell of HDEL. -/
def deleteFields (fields : List String) : CellOp :=
  edit (fun | .hash map => .hash (KvStore.removeFields map fields).1 | v => v) none

/-- The cell of HINCRBY and HINCRBYFLOAT. A missing hash is created with the amount. -/
def addField {N : Type} (parse : String → Option N) (zero : N) (add : N → N → N) (show_ : N → String)
    (key field : String) (amount : N) : CellOp :=
  if cfg.ValidKey key then
    edit (fun
      | .hash map => .hash (map.insert field
          (show_ (add ((map[field]?.map fun v => (parse v).getD zero).getD zero) amount)))
      | v => v)
      (some (.hash ((∅ : Fields).insert field (show_ amount))))
  else nop

end

end CellOp

namespace Write

/-- The HyperLogLog calls read several keys and are not in the keyed fragment. -/
def Keyed : Write → Prop
  | pfadd .. | pfmerge .. => False
  | _ => True

/-- The cell operations of a call under the given limits, transaction state and clock. -/
def cells (rt : Runtime) (cfg : StoreConfig) (inTx : Bool) (now : Nat) : Write → List (String × CellOp)
  | set key value => [(key, .assignIf cfg inTx key value none)]
  | setWithTtl key value ttl => [(key, .assignIf cfg inTx key value (checkedAdd now ttl))]
  | delete key => [(key, if inTx then .nop else .remove)]
  | incr key => [(key, .addInt 1)]
  | decr key => [(key, .addInt (-1))]
  | incrby key amount => [(key, .addInt amount)]
  | append key value => [(key, .appendStr cfg inTx key value)]
  | getset key value => [(key, .assignIf cfg inTx key value none)]
  | mset pairs => CellOp.assignAll cfg inTx pairs
  | expire key ttl => [(key, .retime fun e => if e.expired now then e.expiresAt else checkedAdd now ttl)]
  | persist key => [(key, .retime fun _ => none)]
  | lpush key values => [(key, .pushList cfg KvStore.pushFront key values)]
  | rpush key values => [(key, .pushList cfg (· ++ ·) key values)]
  | lpop key => [(key, .popList KvStore.popFront)]
  | rpop key => [(key, .popList KvStore.popBack)]
  | hset key fields => [(key, .setFields cfg key fields)]
  | hdel key fields => [(key, .deleteFields fields)]
  | hincrby key field amount => [(key, .addField cfg parseI64 0 (· + ·) toString key field amount)]
  | hincrbyfloat key field amount =>
      [(key, .addField cfg rt.f64Parse 0.0 (· + ·) rt.f64ToString key field amount)]
  | pfadd .. | pfmerge .. => []

end Write

/-- Of the configuration, the cells read the two limits. -/
theorem cells_congr (rt : Runtime) {cfg cfg' : StoreConfig} (hkey : cfg'.maxKeySize = cfg.maxKeySize)
    (hvalue : cfg'.maxValueSize = cfg.maxValueSize) (inTx : Bool) (now : Nat) (w : Write) :
    w.cells rt cfg' inTx now = w.cells rt cfg inTx now := by
  obtain ⟨maxKeySize, maxValueSize, _, _, _, _⟩ := cfg
  obtain ⟨maxKeySize', maxValueSize', _, _, _, _⟩ := cfg'
  simp only at hkey hvalue
  subst hkey hvalue
  cases w with
  | mset pairs =>
      simp only [Write.cells]
      induction pairs with
      | nil => rfl
      | cons pair pairs ih =>
          rw [CellOp.assignAll, CellOp.assignAll, ih]
          rfl
  | _ => rfl

/-- Cell operations as updates of the map of entries. -/
def entryUpdates (cells : List (String × CellOp)) : List (KeyUpdate String (Option ValueWithTTL)) :=
  cells.map fun c => ⟨c.1, c.2.onEntry, c.2.bytes⟩

/-- Cell operations as updates of the map of values. -/
def valueUpdates (cells : List (String × CellOp)) : List (KeyUpdate String (Option Value)) :=
  cells.map fun c => ⟨c.1, c.2.onValue, fun _ => 0⟩

namespace KvStore

/-- The abstract view: key to entry. -/
def contents (s : KvStore) : String → Option ValueWithTTL := fun k => s.store[k]?

/-- Key to value, the expiries left out. -/
def values (s : KvStore) : String → Option Value := fun k => (s.contents k).map ValueWithTTL.value

end KvStore

end Daikon
