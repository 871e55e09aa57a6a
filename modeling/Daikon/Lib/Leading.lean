/-
# Lib.Leading -- the zeros before the first one of a word

`leading width n` reads the low `width` bits of `n` from the highest down and counts the zeros in front of
the first one; a word without a one counts them all. What counts them by the size of the number
(`leading_eq`) also counts those of a word that was moved up and filled with zeros from below
(`leading_shiftLeft`), as long as it holds a one.

A word is a natural number and a width, and only the low bits of the number count (`leading_mod`), so no
side condition is needed to speak of the zeros of a word. Machine instructions count them by the position of
the highest one; `leading_eq` is the link to that count, and Mathlib's `Nat.size` is what it is stated with.
-/
import Mathlib.Data.Nat.Bitwise
import Mathlib.Data.Nat.Size

namespace Lib.Leading

/-- The zeros in front of the first one among the low `width` bits. -/
def leading : Nat → Nat → Nat
  | 0, _ => 0
  | width + 1, n => if n.testBit width then 0 else leading width n + 1

theorem leading_le (width n : Nat) : leading width n ≤ width := by
  induction width with
  | zero => exact le_rfl
  | succ width ih =>
      unfold leading
      split
      · exact Nat.zero_le _
      · exact Nat.succ_le_succ ih

/-- The bits from `width` on do not count. -/
theorem leading_mod (width n : Nat) : leading width (n % 2 ^ width) = leading width n := by
  suffices h : ∀ k ≤ width, leading k (n % 2 ^ width) = leading k n from h width le_rfl
  intro k
  induction k with
  | zero => intro _; rfl
  | succ k ih =>
      intro hk
      unfold leading
      rw [Nat.testBit_mod_two_pow, decide_eq_true (Nat.lt_of_succ_le hk), Bool.true_and,
        ih (Nat.le_of_succ_le hk)]

/-- A word that fits: the places its binary digits leave free. -/
theorem leading_eq {width n : Nat} (h : n < 2 ^ width) : leading width n = width - Nat.size n := by
  induction width with
  | zero => rw [Nat.zero_sub]; rfl
  | succ width ih =>
      unfold leading
      by_cases hbit : n.testBit width = true
      · have hsize : width < Nat.size n := Nat.lt_size.mpr (Nat.ge_two_pow_of_testBit hbit)
        rw [if_pos hbit]
        omega
      · have hsmall : n < 2 ^ width := by
          by_contra hlarge
          exact hbit (Nat.testBit_of_two_pow_le_and_two_pow_add_one_gt (Nat.le_of_not_lt hlarge) h)
        have hsize : Nat.size n ≤ width := Nat.size_le.mpr hsmall
        rw [if_neg hbit, ih hsmall]
        omega

/-- No one at all: every place is a leading zero. -/
theorem leading_zero (width : Nat) : leading width 0 = width := by
  rw [leading_eq (Nat.two_pow_pos width), Nat.size_zero, Nat.sub_zero]

/-- Moved to the top of a wider word, a word with a one keeps its leading zeros. -/
theorem leading_shiftLeft {width n : Nat} (up : Nat) (h : n < 2 ^ width) (hone : n ≠ 0) :
    leading (width + up) (n <<< up) = leading width n := by
  have hwide : n <<< up < 2 ^ (width + up) := by
    rw [Nat.shiftLeft_eq, Nat.pow_add]
    exact Nat.mul_lt_mul_of_pos_right h (Nat.two_pow_pos up)
  rw [leading_eq hwide, leading_eq h, Nat.size_shiftLeft hone, Nat.add_sub_add_right]

end Lib.Leading
