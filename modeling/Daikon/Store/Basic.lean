/-
# Daikon.Store.Basic -- errors, limits and counters of the store

`KvStoreError` with its messages (`error.rs`), the part of `StoreConfig` that the store reads
(`config.rs`), and `StoreStats`. Sizes and counters are `usize`/`u64` in the source and natural
numbers here: none of them can reach its bound in a run.

The texts of the errors are those of the `Display` implementations, since they are answered to clients and
logged. Of the configuration the fields that no method of the store reads are left out (paths, addresses,
what the environment sets elsewhere); `max_keys` is kept although nothing reads it, for the results on
limits are about that.
-/
import Mathlib.Algebra.Order.Ring.Int
import Mathlib.Algebra.Order.Ring.Nat

namespace Daikon

/-- The errors of the store (`error.rs`). An I/O error carries the text of the operating system. -/
inductive KvStoreError where
  | keyNotFound (key : String)
  | typeMismatch (key expected got : String)
  | keyTooLarge (size max : Nat)
  | valueTooLarge (size max : Nat)
  | invalidKey (msg : String)
  | invalidValue (msg : String)
  | ioError (msg : String)
  | serializationError (msg : String)
  | replicationError (msg : String)
  | operationFailed (msg : String)
  deriving DecidableEq, Repr

/-- The `Display` texts of the errors. -/
def KvStoreError.toString : KvStoreError → String
  | .keyNotFound key => s!"Key '{key}' not found"
  | .typeMismatch key expected got =>
      s!"Type mismatch for key '{key}': expected {expected}, got {got}"
  | .keyTooLarge size max => s!"Key too large: {size} bytes (max: {max} bytes)"
  | .valueTooLarge size max => s!"Value too large: {size} bytes (max: {max} bytes)"
  | .invalidKey msg => s!"Invalid key: {msg}"
  | .invalidValue msg => s!"Invalid value: {msg}"
  | .ioError msg => s!"IO error: {msg}"
  | .serializationError msg => s!"Serialization error: {msg}"
  | .replicationError msg => s!"Replication error: {msg}"
  | .operationFailed msg => s!"Operation failed: {msg}"

/-- The limits and switches the store consults. -/
structure StoreConfig where
  maxKeySize : Nat := 1024
  maxValueSize : Nat := 10 * 1024 * 1024
  /-- Zero means unlimited. -/
  maxMemoryBytes : Nat := 1024 * 1024 * 1024
  /-- Zero means unlimited. -/
  maxKeys : Nat := 1000000
  lruEvictionEnabled : Bool := true
  keyspaceNotificationsEnabled : Bool := false
  deriving DecidableEq, Repr

/-- The counters kept with the store and saved with it. -/
structure StoreStats where
  totalKeys : Nat := 0
  expiredKeys : Nat := 0
  totalReads : Nat := 0
  totalWrites : Nat := 0
  totalDeletes : Nat := 0
  hits : Nat := 0
  misses : Nat := 0
  memoryBytes : Nat := 0
  evictions : Nat := 0
  deriving DecidableEq, Repr

end Daikon
