/-
# Daikon.Store.HyperLogLog -- the cardinality sketch (`hyperloglog.rs`)

Registers are a list of `u8`. The hash of a value is `DefaultHasher`, whose algorithm the standard
library leaves unspecified, so it is an argument here.

The registers are natural numbers here. That each is a byte, and that an index never falls outside, is
proved for every sketch that the code can make (`Daikon.Store.Ranks`), and that a sketch is a function of
the set of its values in `Daikon.Store.Registers`. The estimate is computed in floating point, with the
formula and the correction of the source for small counts; nothing is proved of how good it is.
-/
import Daikon.Store.Basic
import Mathlib.Data.Nat.Size

namespace Daikon

/-- A sketch of the values that were added: each register has the highest rank seen by it. There are `2 ^
precision` of them. -/
structure HyperLogLog where
  precision : Nat
  registers : List Nat
  deriving DecidableEq, Repr

namespace HyperLogLog

/-- The precision below which none goes. -/
def minPrecision : Nat := 4
/-- The precision above which none goes. -/
def maxPrecision : Nat := 16
/-- The precision of a sketch that nobody has reserved. -/
def defaultPrecision : Nat := 10

/-- An empty sketch; the precision is clamped to `4..16`. -/
def new (precision : Nat) : HyperLogLog :=
  let precision := max minPrecision (min precision maxPrecision)
  { precision, registers := List.replicate (2 ^ precision) 0 }

/-- An empty sketch of the default precision. -/
def default : HyperLogLog := new defaultPrecision

/-- `u64::leading_zeros`. -/
def leadingZeros (n : Nat) : Nat := 64 - Nat.size n

/-- Add one value: the top `precision` bits of the hash select a register, the leading zeros of the
remaining bits give its rank. -/
def add (hashValue : String → UInt64) (hll : HyperLogLog) (value : String) : HyperLogLog × Bool :=
  let hash := (hashValue value).toNat
  let index := hash >>> (64 - hll.precision)
  let shifted := (hash <<< hll.precision) % 2 ^ 64
  let maxRank := 64 - hll.precision
  let rank := min (leadingZeros shifted + 1) (maxRank + 1) % 2 ^ 8
  match hll.registers[index]? with
  | some r =>
      if rank > r then ({ hll with registers := hll.registers.set index rank }, true)
      else (hll, false)
  -- out of range: the source panics here, and a sketch built by `new` never gets here
  | none => (hll, false)

/-- Pointwise maximum of two sketches of one precision. -/
def merge (self other : HyperLogLog) : Except KvStoreError HyperLogLog :=
  if self.precision ≠ other.precision then
    .error (.invalidValue
      s!"Cannot merge HyperLogLogs with different precisions: {self.precision} vs {other.precision}")
  else
    .ok { self with
      registers := (self.registers.zipWith max other.registers)
        ++ self.registers.drop other.registers.length }

/-- The estimate, with the source's floating-point formula. -/
def count (hll : HyperLogLog) : Nat :=
  let m := hll.registers.length.toFloat
  let alpha : Float :=
    match hll.registers.length with
    | 16 => 0.673
    | 32 => 0.697
    | 64 => 0.709
    | _ => 0.7213 / (1.0 + 1.079 / m)
  let sum := hll.registers.foldl (fun acc r => acc + Float.pow 2.0 (-r.toFloat)) 0.0
  let rawEstimate := alpha * m * m / sum
  let zeroRegisters := (hll.registers.countP (· == 0)).toFloat
  let estimate :=
    if rawEstimate ≤ 2.5 * m ∧ zeroRegisters > 0.0 then m * Float.log (m / zeroRegisters)
    else rawEstimate
  let rounded := Float.round estimate
  (if rounded > 0.0 then rounded else 0.0).toUInt64.toNat

/-- One byte for each register. -/
def memoryBytes (hll : HyperLogLog) : Nat := hll.registers.length

end HyperLogLog

end Daikon
