/-
# Daikon.Wal.Document -- log entries as JSON documents

What the derived `Deserialize` of `WalEntry` and `WalOperation` accepts: the name of the operation is
the field `op`, wherever it stands, and the fields of the operation stand beside it. Fields that the
operation does not have are ignored, one given twice is refused, and a missing `ttl_secs` is none.
`WalEntry.toJson` is the other direction; what it writes is read as the same entry.

This is how entries come to a replica: the master answers with a document, and `serde_json` makes entries of
it. The log file has the same text, but there it is taken as a parameter (`Codec`), since for the file only
the bytes of a line matter. A document with an operation of another name, or with a field of the wrong type,
is refused as a whole, and with it the page it is in.
-/
import Daikon.Replica.Master
import Daikon.Store.Serde

namespace Daikon

open Serde

namespace WalOperation

/-- A pair of an MSET is an array of two texts. -/
def decodePair : Json → Option (String × String)
  | .arr [.str key, .str value] => some (key, value)
  | _ => none

/-- The fields of the operation of that name; the names that are no operation are refused. -/
def ofFields (op : String) (fields : List (String × Json)) : Option WalOperation :=
  let key := field "key" decodeString fields
  let value := field "value" decodeString fields
  let values := field "values" (decodeSeq decodeString) fields
  if op = "SET" then do
    return set (← key) (← value) (← fieldOr none "ttl_secs" (decodeOption decodeU64) fields)
  else if op = "DELETE" then do return delete (← key)
  else if op = "INCR" then do return incr (← key)
  else if op = "DECR" then do return decr (← key)
  else if op = "INCRBY" then do return incrBy (← key) (← field "amount" decodeI64 fields)
  else if op = "APPEND" then do return append (← key) (← value)
  else if op = "GETSET" then do return getSet (← key) (← value)
  else if op = "MSET" then do return mset (← field "pairs" (decodeSeq decodePair) fields)
  else if op = "PFADD" then do return pfAdd (← key) (← values)
  else if op = "PFMERGE" then do
    return pfMerge (← field "destination" decodeString fields)
      (← field "sources" (decodeSeq decodeString) fields)
  else if op = "LPUSH" then do return lPush (← key) (← values)
  else if op = "RPUSH" then do return rPush (← key) (← values)
  else if op = "LPOP" then do return lPop (← key)
  else if op = "RPOP" then do return rPop (← key)
  else if op = "EXPIRE" then do return expire (← key) (← field "ttl_secs" decodeU64 fields)
  else if op = "PERSIST" then do return persist (← key)
  else if op = "HSET" then do return hSet (← key) (← field "fields" (decodeMap decodeString) fields)
  else if op = "HDEL" then do
    return hDel (← key) (← field "fields" (decodeSeq decodeString) fields)
  else if op = "HINCRBY" then do
    return hIncrBy (← key) (← field "field" decodeString fields) (← field "amount" decodeI64 fields)
  else none

/-- An operation, by the name in its field `op`. -/
def ofJson : Json → Option WalOperation
  | .obj fields => do ofFields (← field "op" decodeString fields) fields
  | _ => none

end WalOperation

/-- An entry: both fields have to be there. -/
def WalEntry.ofJson : Json → Option WalEntry
  | .obj fields => do
      return ⟨← field "timestamp" decodeU64 fields, ← field "operation" WalOperation.ofJson fields⟩
  | _ => none

/-! ## Round trip -/

namespace WalOperation

theorem decodeTexts (values : List String) :
    decodeSeq decodeString (Json.arr (values.map .str)).written = some values :=
  decodeSeq_encodeSeq (e := .str) (fun s => by simp) values

theorem decodePairs_written (pairs : List (String × String)) :
    decodeSeq decodePair (Json.arr (pairs.map fun p => .arr [.str p.1, .str p.2])).written
      = some pairs :=
  decodeSeq_encodeSeq (e := fun p : String × String => .arr [.str p.1, .str p.2])
    (fun p => by simp [decodePair]) pairs

theorem decodeFields_written (fields : Fields) :
    decodeMap decodeString (Json.obj (fields.toList.map fun p => (p.1, .str p.2))).written
      = some fields := by
  have htexts := mapM_guarded (f := fun p : String × String => some p) (g := id)
    (p := fun _ => true) (l := fields.toList) fun _ _ => rfl
  simp [decodeMap, List.mapM_map, Function.comp_def, decodeString, htexts,
    ofList_of_perm (List.Perm.refl fields.toList)]

theorem decodeInt64 (i : Int64) : decodeI64 (.int i.toInt) = some i := decodeI64_encodeI64 i

theorem decodeNat (n : Nat) : decodeU64 (.int n) = some n := decodeU64_encodeU64 n

theorem ofJson_toJson (op : WalOperation) : ofJson op.toJson.written = some op := by
  cases op with
  | set key value ttl =>
      cases ttl <;> simp [toJson, toJson.tagged, ofJson, ofFields, field, fieldOr, lookup,
        decodeOption, decodeNat]
  | mset pairs =>
      have hpairs := decodePairs_written pairs
      simp only [Json.written_arr, List.map_map] at hpairs
      simp [toJson, toJson.tagged, ofJson, ofFields, field, lookup, hpairs]
  | pfAdd key values | pfMerge key values | lPush key values | rPush key values | hDel key values =>
      have hvalues := decodeTexts values
      simp only [Json.written_arr, List.map_map] at hvalues
      simp [toJson, toJson.tagged, ofJson, ofFields, field, lookup, hvalues]
  | hSet key fields =>
      have hfields := decodeFields_written fields
      simp only [Json.written_obj, List.map_map] at hfields
      simp [toJson, toJson.tagged, ofJson, ofFields, field, lookup, hfields]
  | _ => simp [toJson, toJson.tagged, ofJson, ofFields, field, lookup, decodeInt64, decodeNat]

end WalOperation

@[simp] theorem WalEntry.ofJson_toJson (entry : WalEntry) :
    WalEntry.ofJson entry.toJson.written = some entry := by
  have hoperation := WalOperation.ofJson_toJson entry.operation
  simp [toJson, ofJson, field, lookup, WalOperation.decodeNat, hoperation]

end Daikon
