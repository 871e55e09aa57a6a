/-
# Daikon.Store.Serde -- the store as a JSON document

What the derived `Serialize` and `Deserialize` of `KvStore`, `StoreStats`, `ValueWithTTL`, `Value`
and `HyperLogLog` write and accept. A struct is an object: fields that it does not know are ignored,
a field given twice is refused, and a missing one is refused or has a default. An enum value is an
object with the variant's name as its one field. The config, the recency list, the queue and the
pending events are skipped. Integers are numbers without a bound, as they are in the store; structs
written as arrays, which serde reads too, are left out: nothing writes them.

The main result is `decodeStore_encodeStore`: what was written reads as the same entries and counters, unless
a float was not finite or a sketch was none of bytes, and then nothing is read. In the source a sketch is one
of bytes by the type of its registers, and `Daikon.Store.Plain` shows that those of the model stay so.
-/
import Daikon.Store.Json
import Daikon.Store.KvStore

namespace Daikon

/-- What saving takes from outside the code, apart from the text of a document. -/
structure Serializer where
  /-- The entries of a `HashMap` in the order in which it gives them. -/
  entries : {β : Type} → Std.ExtTreeMap String β compare → List (String × β)
  /-- A `serde_json::Value` as a document. -/
  jsonDoc : JsonValue → Json
  docJson : Json → JsonValue

/-- What is documented of these. -/
structure Serializer.Documented (ser : Serializer) : Prop where
  /-- A map gives each of its entries once. -/
  entries_perm : ∀ {β : Type} (m : Std.ExtTreeMap String β compare),
    (ser.entries m).Perm m.toList
  docJson_jsonDoc : ∀ j, ser.docJson (ser.jsonDoc j) = j
  /-- A number inside a `serde_json::Value` is finite. -/
  jsonDoc_written : ∀ j, (ser.jsonDoc j).written = ser.jsonDoc j

namespace Serde

/-! ## Numbers, texts and containers -/

/-- A counter, an expiry or a register as a number. -/
def encodeU64 (n : Nat) : Json := .int n

/-- A counter of the store has no bound here, and none is asked for. In a text that `serde_json` reads, a number
from 2^64 on is a float (`Json.int`), which is refused; no store of the source holds such a number. -/
def decodeU64 : Json → Option Nat
  | .int i => if 0 ≤ i then some i.toNat else none
  | _ => none

/-- A number that does not fit a byte is refused. -/
def decodeU8 : Json → Option Nat
  | .int i => if 0 ≤ i ∧ i < 2 ^ 8 then some i.toNat else none
  | _ => none

/-- The integer of an `Int` value. -/
def encodeI64 (i : Int64) : Json := .int i.toInt

/-- A number outside the 64 bits with a sign is refused. -/
def decodeI64 : Json → Option Int64
  | .int i => if -2 ^ 63 ≤ i ∧ i < 2 ^ 63 then some (Int64.ofInt i) else none
  | _ => none

/-- A float is also read from a number without a fraction; `null` is refused. -/
def decodeF64 : Json → Option Float
  | .float x => some x
  | .int i => some (Float.ofInt i)
  | _ => none

/-- A `bool` field. -/
def decodeBool : Json → Option Bool
  | .bool b => some b
  | _ => none

/-- A `String` field. -/
def decodeString : Json → Option String
  | .str s => some s
  | _ => none

/-- `None` is written as null. -/
def encodeOption {α : Type} (encode : α → Json) : Option α → Json
  | some a => encode a
  | none => .null

/-- Null is `None`, everything else has to be a value. -/
def decodeOption {α : Type} (decode : Json → Option α) : Json → Option (Option α)
  | .null => some none
  | doc => (decode doc).map some

/-- A `Vec` is an array. -/
def encodeSeq {α : Type} (encode : α → Json) (items : List α) : Json := .arr (items.map encode)

/-- One element that is refused refuses the array. -/
def decodeSeq {α : Type} (decode : Json → Option α) : Json → Option (List α)
  | .arr items => items.mapM decode
  | _ => none

/-- A `HashMap` is an object, with its entries in the order in which the map gives them. -/
def encodeMap {β : Type} (ser : Serializer) (encode : β → Json)
    (m : Std.ExtTreeMap String β compare) : Json :=
  .obj ((ser.entries m).map fun p => (p.1, encode p.2))

/-- A key given twice has its last value. -/
def decodeMap {β : Type} (decode : Json → Option β) : Json →
    Option (Std.ExtTreeMap String β compare)
  | .obj fields =>
      (fields.mapM fun p => (decode p.2).map fun b => (p.1, b)).map
        (Std.ExtTreeMap.ofList · compare)
  | _ => none

/-! ## Structs -/

/-- The document of a struct's field, if it is there; a field given twice is refused. -/
def lookup (name : String) (fields : List (String × Json)) : Option (Option Json) :=
  match fields.filter (·.1 = name) with
  | [] => some none
  | [p] => some (some p.2)
  | _ => none

/-- A field with `#[serde(default)]`. -/
def fieldOr {α : Type} (default : α) (name : String) (decode : Json → Option α)
    (fields : List (String × Json)) : Option α :=
  match lookup name fields with
  | none => none
  | some none => some default
  | some (some doc) => decode doc

/-- A field that must be there. -/
def field {α : Type} (name : String) (decode : Json → Option α)
    (fields : List (String × Json)) : Option α :=
  match lookup name fields with
  | some (some doc) => decode doc
  | _ => none

/-- A sketch: its precision and its registers, one number each. -/
def encodeHyperLogLog (hll : HyperLogLog) : Json :=
  .obj [("precision", encodeU64 hll.precision), ("registers", encodeSeq encodeU64 hll.registers)]

/-- Both fields have to be there. That they fit each other is not checked. -/
def decodeHyperLogLog : Json → Option HyperLogLog
  | .obj fields => do
      let precision ← field "precision" decodeU8 fields
      let registers ← field "registers" (decodeSeq decodeU8) fields
      return { precision, registers }
  | _ => none

/-- All nine counters are written. -/
def encodeStats (stats : StoreStats) : Json :=
  .obj [("total_keys", encodeU64 stats.totalKeys), ("expired_keys", encodeU64 stats.expiredKeys),
    ("total_reads", encodeU64 stats.totalReads), ("total_writes", encodeU64 stats.totalWrites),
    ("total_deletes", encodeU64 stats.totalDeletes), ("hits", encodeU64 stats.hits),
    ("misses", encodeU64 stats.misses), ("memory_bytes", encodeU64 stats.memoryBytes),
    ("evictions", encodeU64 stats.evictions)]

/-- A missing counter is zero. -/
def decodeStats : Json → Option StoreStats
  | .obj fields => do
      let totalKeys ← fieldOr 0 "total_keys" decodeU64 fields
      let expiredKeys ← fieldOr 0 "expired_keys" decodeU64 fields
      let totalReads ← fieldOr 0 "total_reads" decodeU64 fields
      let totalWrites ← fieldOr 0 "total_writes" decodeU64 fields
      let totalDeletes ← fieldOr 0 "total_deletes" decodeU64 fields
      let hits ← fieldOr 0 "hits" decodeU64 fields
      let misses ← fieldOr 0 "misses" decodeU64 fields
      let memoryBytes ← fieldOr 0 "memory_bytes" decodeU64 fields
      let evictions ← fieldOr 0 "evictions" decodeU64 fields
      return { totalKeys, expiredKeys, totalReads, totalWrites, totalDeletes, hits, misses,
               memoryBytes, evictions }
  | _ => none

/-! ## Values and the store -/

section

variable (ser : Serializer)

/-- A value is an object whose one field has the name of its type. A float that is not finite is among the
documents, and `Json.written` says what becomes of it in a text. -/
def encodeValue : Value → Json
  | .str s => .obj [("Str", .str s)]
  | .int i => .obj [("Int", encodeI64 i)]
  | .float x => .obj [("Float", .float x)]
  | .bool b => .obj [("Bool", .bool b)]
  | .json j => .obj [("Json", ser.jsonDoc j)]
  | .hyperLogLog hll => .obj [("HyperLogLog", encodeHyperLogLog hll)]
  | .list items => .obj [("List", encodeSeq .str items)]
  | .hash map => .obj [("Hash", encodeMap ser .str map)]

/-- What the document under the name of a type is read as. -/
def decodeVariant (variant : String) (doc : Json) : Option Value :=
  match variant with
  | "Str" => (decodeString doc).map .str
  | "Int" => (decodeI64 doc).map .int
  | "Float" => (decodeF64 doc).map .float
  | "Bool" => (decodeBool doc).map .bool
  | "Json" => some (.json (ser.docJson doc))
  | "HyperLogLog" => (decodeHyperLogLog doc).map .hyperLogLog
  | "List" => (decodeSeq decodeString doc).map .list
  | "Hash" => (decodeMap decodeString doc).map .hash
  | _ => none

/-- Exactly one field, whose name is that of a type. -/
def decodeValue : Json → Option Value
  | .obj [(variant, doc)] => decodeVariant ser variant doc
  | _ => none

/-- An entry: its value and its expiry in seconds. -/
def encodeEntry (entry : ValueWithTTL) : Json :=
  .obj [("value", encodeValue ser entry.value),
    ("expires_at", encodeOption encodeU64 entry.expiresAt)]

/-- An `Option` field may be missing. -/
def decodeEntry : Json → Option ValueWithTTL
  | .obj fields => do
      let value ← field "value" (decodeValue ser) fields
      let expiresAt ← fieldOr none "expires_at" (decodeOption decodeU64) fields
      return { value, expiresAt }
  | _ => none

/-- The entries and the counters, which is all of a store that is written. -/
def encodeStore (s : KvStore) : Json :=
  .obj [("store", encodeMap ser (encodeEntry ser) s.store), ("stats", encodeStats s.stats)]

/-- The skipped fields have their defaults. -/
def decodeStore : Json → Option KvStore
  | .obj fields => do
      let store ← field "store" (decodeMap (decodeEntry ser)) fields
      let stats ← fieldOr {} "stats" decodeStats fields
      return { store, stats }
  | _ => none

end

/-! ## Round trips

`decode (encode a).written` is what is read of `a` after its document was written. -/

section

variable {α β : Type}

/-- What each element reads as, the list reads as; one element that is refused refuses the list. -/
theorem mapM_guarded {f : α → Option β} {g : α → β} {p : α → Bool} {l : List α}
    (h : ∀ a ∈ l, f a = if p a then some (g a) else none) :
    l.mapM f = if l.all p then some (l.map g) else none := by
  induction l with
  | nil => rfl
  | cons a rest ih =>
    have hrest := ih fun b hb => h b (by simp [hb])
    rw [List.mapM_cons, h a (by simp), hrest]
    cases hp : p a <;> cases hall : rest.all p <;> simp [hp, hall]

theorem decodeSeq_encodeSeq {e : α → Json} {d : Json → Option α}
    (h : ∀ a, d (e a).written = some a) (items : List α) :
    decodeSeq d (encodeSeq e items).written = some items := by
  have hitems := mapM_guarded (f := fun a => d (e a).written) (g := id)
    (p := fun _ => true) (l := items) fun a _ => h a
  simpa [decodeSeq, encodeSeq, List.mapM_map, Function.comp_def] using hitems

/-- The entries of a map in any order make the map. -/
theorem ofList_of_perm {m : Std.ExtTreeMap String β compare} {l : List (String × β)}
    (h : l.Perm m.toList) : Std.ExtTreeMap.ofList l compare = m := by
  have hdistinct : l.Pairwise fun a b => ¬ compare a.1 b.1 = .eq :=
    (h.pairwise_iff fun hab hba => hab (Std.OrientedCmp.eq_symm hba)).2
      Std.ExtTreeMap.distinct_keys_toList
  refine Std.ExtTreeMap.ext_getElem? fun k => ?_
  cases hk : m[k]? with
  | some b =>
    have hmem : (k, b) ∈ l := h.mem_iff.2 (Std.ExtTreeMap.mem_toList_iff_getElem?_eq_some.2 hk)
    exact Std.ExtTreeMap.getElem?_ofList_of_mem (by simp) hdistinct hmem
  | none =>
    apply Std.ExtTreeMap.getElem?_ofList_of_contains_eq_false
    by_contra hcontains
    obtain ⟨⟨k', b⟩, hmem, hk'⟩ : ∃ p ∈ l, p.1 = k := by simpa using hcontains
    have hsome := Std.ExtTreeMap.mem_toList_iff_getElem?_eq_some.1 (h.mem_iff.1 hmem)
    simp [← hk', show m[k']? = some b from hsome] at hk

theorem decodeMap_encodeMap {e : β → Json} {d : Json → Option β} {p : β → Bool}
    {ser : Serializer} (hser : ser.Documented)
    (h : ∀ b, d (e b).written = if p b then some b else none)
    (m : Std.ExtTreeMap String β compare) :
    decodeMap d (encodeMap ser e m).written
      = if m.toList.all (fun entry => p entry.2) then some m else none := by
  have hperm := hser.entries_perm m
  have hall : (ser.entries m).all (fun entry => p entry.2) = m.toList.all fun entry => p entry.2 :=
    hperm.all_eq
  have hentries := mapM_guarded (l := ser.entries m) (g := id) (p := fun entry => p entry.2)
    (f := fun entry => (d (e entry.2).written).map fun b => (entry.1, b)) fun entry _ => by
      rw [h]
      cases p entry.2 <;> simp
  simp only [encodeMap, Json.written_obj, List.map_map, decodeMap, List.mapM_map,
    Function.comp_def]
  rw [hentries, hall]
  cases m.toList.all fun entry => p entry.2 <;> simp [ofList_of_perm hperm]

end

@[simp] theorem decodeU64_encodeU64 (n : Nat) : decodeU64 (encodeU64 n).written = some n := by
  simp [encodeU64, decodeU64]

@[simp] theorem decodeI64_encodeI64 (i : Int64) : decodeI64 (encodeI64 i).written = some i := by
  have hrange : -2 ^ 63 ≤ i.toInt ∧ i.toInt < 2 ^ 63 := ⟨i.le_toInt, i.toInt_lt⟩
  rw [encodeI64, Json.written_int, decodeI64, if_pos hrange, Int64.ofInt_toInt]

theorem decodeF64_float (x : Float) :
    decodeF64 (Json.float x).written = if x.isFinite then some x else none := by
  rw [Json.written_float]
  cases x.isFinite <;> rfl

@[simp] theorem decodeString_str (s : String) : decodeString (.str s) = some s := rfl

@[simp] theorem decodeOption_encodeOption (n : Option Nat) :
    decodeOption decodeU64 (encodeOption encodeU64 n).written = some n := by
  cases n <;> simp [encodeOption, encodeU64, decodeOption, decodeU64]

theorem decodeU8_encodeU64 (n : Nat) :
    decodeU8 (encodeU64 n).written = if decide (n < 2 ^ 8) then some n else none := by
  by_cases h : n < 2 ^ 8
  · have hint : 0 ≤ (n : Int) ∧ (n : Int) < 2 ^ 8 := by omega
    simp only [encodeU64, Json.written_int, decodeU8, if_pos hint, decide_eq_true h, if_true, Int.toNat_natCast]
  · have hint : ¬ (0 ≤ (n : Int) ∧ (n : Int) < 2 ^ 8) := by omega
    simp only [encodeU64, Json.written_int, decodeU8, if_neg hint, decide_eq_false h, Bool.false_eq_true,
      if_false]

@[simp] theorem decodeStats_encodeStats (stats : StoreStats) :
    decodeStats (encodeStats stats).written = some stats := by
  simp [encodeStats, decodeStats, fieldOr, lookup]

end Serde

/-- Precision and registers are bytes, as those of every sketch that the source has are. -/
def HyperLogLog.ofBytes (hll : HyperLogLog) : Bool :=
  hll.precision < 2 ^ 8 && hll.registers.all (· < 2 ^ 8)

/-- The value is read back from its document: it is no float that JSON has no text for, and a sketch is one
of bytes. -/
def Value.readable : Value → Bool
  | .float x => x.isFinite
  | .hyperLogLog hll => hll.ofBytes
  | _ => true

namespace Serde

variable {ser : Serializer}

theorem decodeHyperLogLog_encodeHyperLogLog (hll : HyperLogLog) :
    decodeHyperLogLog (encodeHyperLogLog hll).written = if hll.ofBytes then some hll else none := by
  have hregisters : decodeSeq decodeU8 (encodeSeq encodeU64 hll.registers).written
      = if hll.registers.all (· < 2 ^ 8) then some hll.registers else none := by
    have hall := mapM_guarded (f := fun n => decodeU8 (encodeU64 n).written) (g := id)
      (p := fun n => decide (n < 2 ^ 8)) (l := hll.registers) fun n _ => decodeU8_encodeU64 n
    simpa [decodeSeq, encodeSeq, List.mapM_map, Function.comp_def] using hall
  have hprecision := decodeU8_encodeU64 hll.precision
  unfold HyperLogLog.ofBytes
  cases hbyte : decide (hll.precision < 2 ^ 8) <;>
    cases hall : hll.registers.all (· < 2 ^ 8) <;>
    simp only [hbyte, hall] at hprecision hregisters ⊢ <;>
    simp [encodeHyperLogLog, decodeHyperLogLog, field, lookup, hprecision, hregisters]

theorem decodeValue_encodeValue (hser : ser.Documented) (v : Value) :
    decodeValue ser (encodeValue ser v).written = if v.readable then some v else none := by
  cases v with
  | float x =>
    cases hfinite : x.isFinite <;>
      simp [encodeValue, decodeValue, decodeVariant, decodeF64_float, Value.readable, hfinite]
  | json j =>
    simp [encodeValue, decodeValue, decodeVariant, hser.jsonDoc_written, hser.docJson_jsonDoc,
      Value.readable]
  | list items =>
    have hitems := decodeSeq_encodeSeq (e := .str) (d := decodeString)
      (fun s => by simp) items
    simp [encodeValue, decodeValue, decodeVariant, hitems, Value.readable]
  | hash map =>
    have hmap := decodeMap_encodeMap (e := .str) (d := decodeString)
      (p := fun _ => true) hser (fun s => by simp) map
    simp [encodeValue, decodeValue, decodeVariant, hmap, Value.readable]
  | hyperLogLog hll =>
    have hsketch := decodeHyperLogLog_encodeHyperLogLog hll
    cases hbytes : hll.ofBytes <;>
      simp [encodeValue, decodeValue, decodeVariant, hsketch, Value.readable, hbytes]
  | str s | int i | bool b =>
    simp [encodeValue, decodeValue, decodeVariant, decodeBool, Value.readable]

theorem decodeEntry_encodeEntry (hser : ser.Documented) (entry : ValueWithTTL) :
    decodeEntry ser (encodeEntry ser entry).written
      = if entry.value.readable then some entry else none := by
  have hvalue := decodeValue_encodeValue hser entry.value
  cases hfinite : entry.value.readable <;>
    simp [encodeEntry, decodeEntry, field, fieldOr, lookup, hvalue, hfinite]

/-- What is read of a store that was written: its entries and counters, or nothing. -/
theorem decodeStore_encodeStore (hser : ser.Documented) (s : KvStore) :
    decodeStore ser (encodeStore ser s).written
      = if s.store.toList.all (fun p => p.2.value.readable) then
          some { store := s.store, stats := s.stats }
        else none := by
  have hstore := decodeMap_encodeMap hser (decodeEntry_encodeEntry hser) s.store
  cases hfinite : s.store.toList.all fun p => p.2.value.readable <;>
    simp [encodeStore, decodeStore, field, fieldOr, lookup, hstore, hfinite]

end Serde

/-! ## Floats -/

/-- The document of the value has no float. -/
def Value.floatless (ser : Serializer) : Value → Bool
  | .float _ => false
  | .json j => (ser.jsonDoc j).floatless
  | _ => true

namespace Serde

theorem encodeMap_floatless {β : Type} {encode : β → Json} {p : β → Bool}
    (h : ∀ b, p b = true → (encode b).floatless = true) (hser : ser.Documented)
    {m : Std.ExtTreeMap String β compare} (hm : ∀ entry ∈ m.toList, p entry.2 = true) :
    (encodeMap ser encode m).floatless = true := by
  simp only [encodeMap, Json.floatless_obj, List.all_map, Function.comp_def, List.all_eq_true]
  exact fun entry hentry => h entry.2 (hm entry ((hser.entries_perm m).mem_iff.mp hentry))

theorem encodeValue_floatless (hser : ser.Documented) {v : Value} (h : v.floatless ser = true) :
    (encodeValue ser v).floatless = true := by
  cases v with
  | float x => cases h
  | hash map =>
      have hmap : (encodeMap ser .str map).floatless = true :=
        encodeMap_floatless (p := fun _ => true) (fun s _ => Json.floatless_str s) hser fun _ _ => rfl
      simp [encodeValue, hmap]
  | json j => simpa [encodeValue, Value.floatless] using h
  | str s | int i | bool b | hyperLogLog hll | list items =>
      simp [encodeValue, encodeI64, encodeSeq, encodeU64, encodeHyperLogLog]

/-- A store without floats is written without any. -/
theorem encodeStore_floatless (hser : ser.Documented) {s : KvStore}
    (h : ∀ p ∈ s.store.toList, p.2.value.floatless ser = true) :
    (encodeStore ser s).floatless = true := by
  have hentry : ∀ entry : ValueWithTTL, entry.value.floatless ser = true →
      (encodeEntry ser entry).floatless = true := by
    intro entry hvalue
    have hexpires : (encodeOption encodeU64 entry.expiresAt).floatless = true := by
      cases entry.expiresAt <;> simp [encodeOption, encodeU64]
    simp [encodeEntry, encodeValue_floatless hser hvalue, hexpires]
  have hstore := encodeMap_floatless hentry hser h
  simp [encodeStore, encodeStats, encodeU64, hstore]

end Serde

/-! ## Nesting -/

/-- A JSON value has at most so many arrays and objects open at once; other values are flat. -/
def Value.nestedWithin (ser : Serializer) (n : Nat) : Value → Bool
  | .json j => (ser.jsonDoc j).depth ≤ n
  | _ => true

namespace Serde

theorem encodeMap_depth_le_iff {β : Type} (hser : ser.Documented) {encode : β → Json}
    {m : Std.ExtTreeMap String β compare} {n : Nat} :
    (encodeMap ser encode m).depth ≤ n + 1 ↔ ∀ p ∈ m.toList, (encode p.2).depth ≤ n := by
  rw [encodeMap, Json.depth_obj_le_iff, List.forall_mem_map]
  exact forall_congr' fun p => imp_congr_left (hser.entries_perm m).mem_iff

theorem encodeHyperLogLog_depth (hll : HyperLogLog) (n : Nat) :
    (encodeHyperLogLog hll).depth ≤ n + 2 := by
  rw [encodeHyperLogLog, Json.depth_obj_le_iff]
  simp [encodeSeq, encodeU64, Json.depth_arr_le_iff]

/-- Everything but a JSON value fits into three levels. -/
theorem encodeValue_depth_le_iff (hser : ser.Documented) (v : Value) (n : Nat) :
    (encodeValue ser v).depth ≤ n + 3 ↔ v.nestedWithin ser (n + 2) := by
  cases v <;> rw [encodeValue, Json.depth_obj_le_iff] <;>
    simp [Value.nestedWithin, encodeI64, encodeSeq, encodeMap_depth_le_iff hser,
      encodeHyperLogLog_depth, Json.depth_arr_le_iff]

theorem encodeEntry_depth_le_iff (hser : ser.Documented) (entry : ValueWithTTL) (n : Nat) :
    (encodeEntry ser entry).depth ≤ n + 4 ↔ entry.value.nestedWithin ser (n + 2) := by
  have hexpires : (encodeOption encodeU64 entry.expiresAt).depth ≤ n + 3 := by
    cases entry.expiresAt <;> simp [encodeOption, encodeU64]
  rw [encodeEntry, Json.depth_obj_le_iff]
  simp [encodeValue_depth_le_iff hser, hexpires]

/-- A stored JSON value stands four levels down in the document of the store. -/
theorem encodeStore_depth_le_iff (hser : ser.Documented) (s : KvStore) (n : Nat) :
    (encodeStore ser s).depth ≤ n + 6 ↔
      ∀ p ∈ s.store.toList, p.2.value.nestedWithin ser (n + 2) := by
  have hstats : (encodeStats s.stats).depth ≤ n + 5 := by
    rw [encodeStats, Json.depth_obj_le_iff]
    simp [encodeU64]
  have hstore : (encodeMap ser (encodeEntry ser) s.store).depth ≤ n + 5 ↔
      ∀ p ∈ s.store.toList, p.2.value.nestedWithin ser (n + 2) := by
    rw [encodeMap_depth_le_iff hser]
    exact forall₂_congr fun p _ => encodeEntry_depth_le_iff hser p.2 n
  rw [encodeStore, Json.depth_obj_le_iff]
  simpa [hstats] using hstore

end Serde

end Daikon
