/-
# Daikon.Store.Ranks -- the registers of a sketch are well formed

Every sketch is made by `new`, `add` and `merge` (`Recipe`), and merging is refused between two precisions.
The precision and the number of registers stay as `new` set them, and what a register holds is a rank: one
more than the leading zeros of the part of some hash that did not select it (`rank_eq`). So no index is out
of range, no register is above `64 - precision + 1`, and neither the shifts nor the cast to `u8` lose
anything.

The source computes a rank by shifting the remainder to the top of the word and counting zeros, which counts
the zeros that the shift brings in if the remainder is zero; the cap takes care of that. `Lib.Leading`
counts the zeros of the remainder in its own width, where nothing has to be capped, and `rank_eq` is the
equality of the two.

A recipe asks for any precision, in range or not, and merges any other recipe into the sketch, of the same
precision or not. A refused merge leaves the sketch as it was, so the invariant has nothing to say about it.
-/
import Daikon.Lib.Leading
import Daikon.Store.Registers

namespace Daikon

namespace HyperLogLog

open Lib.Leading

theorem leadingZeros_eq {n : Nat} (h : n < 2 ^ 64) : leadingZeros n = leading 64 n := (leading_eq h).symm

variable (hashValue : String → UInt64)

/-! ## The rank of a value -/

section

variable {precision : Nat} (value : String)

/-- What the source shifts to the top is the part of the hash under the index. -/
theorem shifted_eq (h : precision ≤ 64) (hash : Nat) :
    hash <<< precision % 2 ^ 64 = (hash % 2 ^ (64 - precision)) <<< precision := by
  have hword : 2 ^ 64 = 2 ^ (64 - precision) * 2 ^ precision := by
    rw [← Nat.pow_add, Nat.sub_add_cancel h]
  rw [Nat.shiftLeft_eq, hword, Nat.mul_mod_mul_right, Nat.shiftLeft_eq]

/-- The zeros that the shift brings in from below count only where the remainder has no one, and there the
cap cuts them off. -/
theorem capped_leadingZeros (h : precision ≤ 64) (hash : Nat) :
    min (leadingZeros (hash <<< precision % 2 ^ 64) + 1) (64 - precision + 1)
      = leading (64 - precision) hash + 1 := by
  have hrest : hash % 2 ^ (64 - precision) < 2 ^ (64 - precision) := Nat.mod_lt _ (Nat.two_pow_pos _)
  rw [leadingZeros_eq (Nat.mod_lt _ (Nat.two_pow_pos 64)), shifted_eq h, ← leading_mod (64 - precision)]
  generalize hash % 2 ^ (64 - precision) = rest at hrest ⊢
  by_cases hone : rest = 0
  · subst hone
    rw [Nat.zero_shiftLeft, leading_zero, leading_zero]
    omega
  · have hmove := leading_shiftLeft precision hrest hone
    rw [Nat.sub_add_cancel h] at hmove
    rw [hmove]
    exact min_eq_left (Nat.succ_le_succ (leading_le _ rest))

/-- The rank, as the source counts it and cuts it to a `u8`, is one more than the leading zeros of the
remaining bits. -/
theorem rank_eq (h : precision ≤ 64) :
    rank hashValue precision value = leading (64 - precision) (hashValue value).toNat + 1 := by
  have hle := leading_le (64 - precision) (hashValue value).toNat
  rw [rank, capped_leadingZeros h]
  exact Nat.mod_eq_of_lt (by omega)

theorem rank_le (h : precision ≤ 64) : rank hashValue precision value ≤ 64 - precision + 1 := by
  rw [rank_eq hashValue value h]
  exact Nat.succ_le_succ (leading_le _ _)

end

/-! ## What every sketch keeps -/

/-- The shape that `new` gives a sketch, and the bound of its registers. -/
structure WellFormed (hll : HyperLogLog) : Prop where
  low : 4 ≤ hll.precision
  high : hll.precision ≤ 16
  length : hll.registers.length = 2 ^ hll.precision
  bounded : ∀ r ∈ hll.registers, r ≤ 64 - hll.precision + 1

namespace WellFormed

theorem new (precision : Nat) : WellFormed (HyperLogLog.new precision) where
  low := le_max_left _ _
  high := max_le (by decide) (min_le_right _ _)
  length := List.length_replicate
  bounded := fun r hr => by
    rw [List.eq_of_mem_replicate hr]
    exact Nat.zero_le _

variable {hashValue} {hll other : HyperLogLog}

theorem word (h : WellFormed hll) : hll.precision ≤ 64 := le_trans h.high (by decide)

theorem index_lt (h : WellFormed hll) (value : String) :
    index hashValue hll.precision value < hll.registers.length := by
  rw [h.length]
  exact HyperLogLog.index_lt hashValue h.word value

/-- Register by register, so that an add and a merge are read by what they do to one of them. -/
theorem of_register (hlow : 4 ≤ hll.precision) (hhigh : hll.precision ≤ 16)
    (hlength : hll.registers.length = 2 ^ hll.precision)
    (h : ∀ i < hll.registers.length, hll.register i ≤ 64 - hll.precision + 1) : WellFormed hll where
  low := hlow
  high := hhigh
  length := hlength
  bounded := fun r hr => by
    obtain ⟨i, hi, rfl⟩ := List.getElem_of_mem hr
    have hreg := h i hi
    rwa [register, List.getD_eq_getElem _ _ hi] at hreg

theorem register_le (h : WellFormed hll) {i : Nat} (hi : i < hll.registers.length) :
    hll.register i ≤ 64 - hll.precision + 1 := by
  rw [register, List.getD_eq_getElem _ _ hi]
  exact h.bounded _ (List.getElem_mem hi)

theorem add (h : WellFormed hll) (value : String) : WellFormed (hll.add hashValue value).1 := by
  apply of_register
  · rw [add_precision]; exact h.low
  · rw [add_precision]; exact h.high
  · rw [add_registers_length, add_precision]; exact h.length
  · intro i hi
    rw [add_registers_length] at hi
    rw [add_register hashValue hll value hi, add_precision]
    split
    · exact max_le (rank_le hashValue value h.word) (h.register_le hi)
    · exact h.register_le hi

theorem merge {merged : HyperLogLog} (h : WellFormed hll) (hother : WellFormed other)
    (hmerge : hll.merge other = .ok merged) : WellFormed merged := by
  have hsame : hll.precision = other.precision := by
    unfold HyperLogLog.merge at hmerge
    split at hmerge
    · cases hmerge
    · next hp => exact not_not.mp hp
  have hprecision : merged.precision = hll.precision := merge_precision hmerge
  have hlength : merged.registers.length = hll.registers.length := merge_registers_length hmerge
  apply of_register
  · rw [hprecision]; exact h.low
  · rw [hprecision]; exact h.high
  · rw [hlength, hprecision]; exact h.length
  · intro i hi
    rw [hlength] at hi
    have hi' : i < other.registers.length := by rwa [hother.length, ← hsame, ← h.length]
    rw [merge_register hmerge hi, hprecision]
    exact max_le (h.register_le hi) (hsame ▸ hother.register_le hi')

end WellFormed

/-! ## Every sketch -/

/-- How a sketch is made: a precision is asked for, values are added, other sketches are merged in. -/
inductive Recipe where
  | new (precision : Nat)
  | add (recipe : Recipe) (value : String)
  | merge (recipe other : Recipe)

/-- The sketch that is made; a refused merge leaves it as it was. -/
def Recipe.run (hashValue : String → UInt64) : Recipe → HyperLogLog
  | new precision => HyperLogLog.new precision
  | add recipe value => ((recipe.run hashValue).add hashValue value).1
  | merge recipe other =>
      match (recipe.run hashValue).merge (other.run hashValue) with
      | .ok merged => merged
      | .error _ => recipe.run hashValue

theorem Recipe.wellFormed (recipe : Recipe) : WellFormed (recipe.run hashValue) := by
  induction recipe with
  | new precision => exact WellFormed.new precision
  | add recipe value ih => exact ih.add value
  | merge recipe other ih ihother =>
      unfold Recipe.run
      split
      · next hmerge => exact ih.merge ihother hmerge
      · exact ih

/-- What an add does to a sketch: the top bits of the hash select a register that is there, and it is raised
to one more than the leading zeros of the other bits unless it is that high already. The shifts are by less
than a word and the cast to `u8` loses nothing. -/
structure AddsRank (hll : HyperLogLog) (value : String) : Prop where
  inRange : index hashValue hll.precision value < hll.registers.length
  leads : rank hashValue hll.precision value
    = leading (64 - hll.precision) (hashValue value).toNat + 1
  raised : (hll.add hashValue value).1.register (index hashValue hll.precision value)
    = max (rank hashValue hll.precision value) (hll.register (index hashValue hll.precision value))
  changed : (hll.add hashValue value).2
    = decide (hll.register (index hashValue hll.precision value) < rank hashValue hll.precision value)
  others : ∀ i, i ≠ index hashValue hll.precision value →
    (hll.add hashValue value).1.register i = hll.register i
  shiftRight : 0 < 64 - hll.precision ∧ 64 - hll.precision < 64
  shiftLeft : hll.precision < 64
  cast : min (leadingZeros ((hashValue value).toNat <<< hll.precision % 2 ^ 64) + 1)
    (64 - hll.precision + 1) < 2 ^ 8

variable {hashValue} in
/-- The flag that an add returns. -/
theorem add_changed {hll : HyperLogLog} {value : String}
    (h : index hashValue hll.precision value < hll.registers.length) :
    (hll.add hashValue value).2
      = decide (hll.register (index hashValue hll.precision value) < rank hashValue hll.precision value) := by
  unfold register
  rw [List.getD_eq_getElem _ _ h]
  unfold index rank at *
  unfold add
  simp only [List.getElem?_eq_getElem h, gt_iff_lt]
  split
  · next hlt => exact (decide_eq_true hlt).symm
  · next hle => exact (decide_eq_false hle).symm

theorem WellFormed.addsRank {hll : HyperLogLog} (h : WellFormed hll) (value : String) :
    AddsRank hashValue hll value where
  inRange := h.index_lt value
  leads := rank_eq hashValue value h.word
  raised := by rw [add_register hashValue hll value (h.index_lt value), if_pos rfl]
  changed := add_changed (h.index_lt value)
  others := fun i hi => by
    by_cases hlt : i < hll.registers.length
    · rw [add_register hashValue hll value hlt, if_neg (Ne.symm hi)]
    · unfold register
      rw [List.getD_eq_default _ _ (by rw [add_registers_length]; omega),
        List.getD_eq_default _ _ (by omega)]
  shiftRight := by
    have := h.low
    have := h.high
    omega
  shiftLeft := lt_of_le_of_lt h.high (by decide)
  cast := by
    have := leading_le (64 - hll.precision) (hashValue value).toNat
    rw [capped_leadingZeros h.word]
    omega

/-- Whatever precisions are asked for, whatever the hash is and however values are added and sketches
merged: a sketch has `2 ^ precision` registers with a precision from 4 to 16, none is above
`64 - precision + 1`, and the next add raises the register of its hash to the rank of its hash. -/
theorem registers_well_formed (hashValue : String → UInt64) (recipe : Recipe) :
    WellFormed (recipe.run hashValue) ∧ ∀ value, AddsRank hashValue (recipe.run hashValue) value :=
  ⟨recipe.wellFormed hashValue, fun value => (recipe.wellFormed hashValue).addsRank hashValue value⟩

end HyperLogLog

end Daikon
