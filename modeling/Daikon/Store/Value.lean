/-
# Daikon.Store.Value -- the values of the store, and the outside functions they need

`Value`, its `Display` text and its accounted size (`kv_store.rs`), and `Runtime`: the functions the
code calls in the standard library and in `serde_json` and that are not modelled here. What is
assumed of them is stated where it is used.

Floats are Lean's, which are those of the machine, with their text and their parsing left to `Runtime`, as
are `serde_json` on values and the hasher behind the sketches. The accounted size of a value is that of its
text or of its elements, as the source estimates it; keys do not count.
-/
import Daikon.Store.HyperLogLog
import Std.Data.ExtTreeMap

namespace Daikon

/-- `serde_json::Value`. The store reads one only through its compact text, so that text stands
for it. -/
structure JsonValue where
  text : String
  deriving DecidableEq, Repr

/-- `HashMap<String, String>`: the fields of a hash. Equality is equality of maps. -/
abbrev Fields := Std.ExtTreeMap String String compare

/-- A stored value. -/
inductive Value where
  | str (s : String)
  | int (i : Int64)
  | float (x : Float)
  | bool (b : Bool)
  | json (j : JsonValue)
  | hyperLogLog (hll : HyperLogLog)
  | list (items : List String)
  | hash (map : Fields)
  deriving DecidableEq

/-- A value and the second up to which it is seen; none if it stays. -/
structure ValueWithTTL where
  value : Value
  expiresAt : Option Nat
  deriving DecidableEq

/-- The entry is past its expiry. -/
def ValueWithTTL.expired (entry : ValueWithTTL) (now : Nat) : Bool :=
  match entry.expiresAt with
  | some exp => now > exp
  | none => false

/-- The functions the code calls outside this repository. -/
structure Runtime where
  /-- `DefaultHasher` on a string. -/
  hashValue : String → UInt64
  /-- `f64::to_string`. -/
  f64ToString : Float → String
  /-- `str::parse::<f64>`. -/
  f64Parse : String → Option Float
  /-- `serde_json::to_string(&value)`. -/
  valueToJson : Value → Except String String
  /-- `serde_json::from_str::<Value>`. -/
  valueFromJson : String → Option Value

namespace Value

/-- The type name used in error messages. -/
def typeName : Value → String
  | str _ => "Str"
  | int _ => "Int"
  | float _ => "Float"
  | bool _ => "Bool"
  | json _ => "Json"
  | hyperLogLog _ => "HyperLogLog"
  | list _ => "List"
  | hash _ => "Hash"

/-- The `Display` text. -/
def toString (rt : Runtime) : Value → String
  | str s => s
  | int i => ToString.toString i
  | float x => rt.f64ToString x
  | bool b => if b then "true" else "false"
  | json j => j.text
  | hyperLogLog hll => s!"HyperLogLog(count≈{hll.count})"
  | list items => s!"List(len={items.length})"
  | hash map => s!"Hash(len={map.size})"

end Value

/-- The accounted size of a value in bytes. -/
def estimateValueSize : Value → Nat
  | .str s => s.utf8ByteSize
  | .int _ => 8
  | .float _ => 8
  | .bool _ => 1
  | .json j => j.text.utf8ByteSize
  | .hyperLogLog hll => hll.memoryBytes
  | .list items => (items.map String.utf8ByteSize).sum + 24
  | .hash map => (map.toList.map fun p => p.1.utf8ByteSize + p.2.utf8ByteSize).sum + 48

/-! ## Integers as text -/

/-- The value of a run of decimal digits; `none` if it is empty or holds anything else. -/
def parseDigits (ds : List Char) : Option Nat :=
  if ds ≠ [] ∧ ds.all Char.isDigit then
    some (ds.foldl (fun n c => 10 * n + (c.toNat - '0'.toNat)) 0)
  else none

/-- `str::parse::<i64>`: an optional sign, at least one digit, and a result in range. -/
def parseI64 (s : String) : Option Int64 :=
  match s.toList with
  | '-' :: ds => (parseDigits ds).bind fun n => if n ≤ 2 ^ 63 then some (Int64.ofInt (-n)) else none
  | '+' :: ds => (parseDigits ds).bind fun n => if n < 2 ^ 63 then some (Int64.ofInt n) else none
  | ds => (parseDigits ds).bind fun n => if n < 2 ^ 63 then some (Int64.ofInt n) else none

/-- `u64::checked_add`. -/
def checkedAdd (a b : Nat) : Option Nat :=
  if a + b < 2 ^ 64 then some (a + b) else none

end Daikon
