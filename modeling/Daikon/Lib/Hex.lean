/-
# Lib.Hex -- the hexadecimal text of bytes

A byte is two digits of four bits, the high one first. The decoder takes letters of both cases, so bytes have
more than one text; these agree once they are in lower case (`decode_eq_some_iff`).

The decoder is partial: a text of odd length has no bytes, and neither has one with another character in it.
The two lemmas that matter to a user are `decode_eq_some_iff`, which gives all texts of given bytes, and
`length_encode`, from which the number of bytes follows for any text that is decoded at all.

What a digit says is checked by running through all bytes (`value_eq_some_iff`). The rest is an induction
that takes two characters, or one byte, in a step.
-/
import Mathlib.Data.FinEnum

namespace Lib.Hex

/-- The character of a four-bit digit. -/
def digit (n : Nat) : UInt8 := if n < 10 then UInt8.ofNat (48 + n) else UInt8.ofNat (87 + n)

/-- The digit of a character. -/
def value (b : UInt8) : Option Nat :=
  if 48 ≤ b.toNat ∧ b.toNat ≤ 57 then some (b.toNat - 48)
  else if 97 ≤ b.toNat ∧ b.toNat ≤ 102 then some (b.toNat - 87)
  else if 65 ≤ b.toNat ∧ b.toNat ≤ 70 then some (b.toNat - 55)
  else none

/-- The lower case of a letter. -/
def lower (b : UInt8) : UInt8 := if 65 ≤ b.toNat ∧ b.toNat ≤ 90 then b + 32 else b

/-- Two digits for every byte. -/
def encode : List UInt8 → List UInt8
  | [] => []
  | b :: bytes => digit (b.toNat / 16) :: digit (b.toNat % 16) :: encode bytes

/-- Nothing for a text of odd length. -/
def decode : List UInt8 → Option (List UInt8)
  | [] => some []
  | x :: y :: text =>
      (value x).bind fun p => (value y).bind fun q => (decode text).map (UInt8.ofNat (p * 16 + q) :: ·)
  | [_] => none

/-- A character has a digit exactly if its lower case is the character of one. -/
theorem value_eq_some_iff {b : UInt8} {n : Nat} : value b = some n ↔ n < 16 ∧ lower b = digit n := by
  have hdigit : ∀ b, ∀ n ∈ value b, n < 16 ∧ lower b = digit n := by decide +kernel
  have hvalue : ∀ b, ∀ n < 16, lower b = digit n → value b = some n := by decide +kernel
  exact ⟨hdigit b n, fun ⟨hn, h⟩ => hvalue b n hn h⟩

/-- What holds of the digits holds of the whole text. -/
theorem encode_forall {P : UInt8 → Prop} (hdigit : ∀ n < 16, P (digit n)) (bytes : List UInt8) :
    ∀ b ∈ encode bytes, P b := by
  induction bytes with
  | nil => exact fun b hb => absurd hb List.not_mem_nil
  | cons b bytes ih =>
      have hb := b.toNat_lt
      simp only [encode, List.forall_mem_cons]
      exact ⟨hdigit _ (by omega), hdigit _ (by omega), ih⟩

/-- A text is decoded to the bytes whose text it is, up to the case of its letters. -/
theorem decode_eq_some_iff {text bytes : List UInt8} :
    decode text = some bytes ↔ text.map lower = encode bytes := by
  fun_induction decode text generalizing bytes with
  | case1 =>
      cases bytes with
      | nil => exact iff_of_true rfl rfl
      | cons b bytes => simp [encode]
  | case2 x y text ih =>
      cases bytes with
      | nil => simp [encode, Option.bind_eq_some_iff]
      | cons b bytes =>
          have hb := b.toNat_lt
          simp only [Option.bind_eq_some_iff, Option.map_eq_some_iff, value_eq_some_iff, ih, List.map_cons,
            encode, List.cons.injEq]
          constructor
          · rintro ⟨p, ⟨hp, hx⟩, q, ⟨hq, hy⟩, rest, hrest, rfl, rfl⟩
            have hbyte : (UInt8.ofNat (p * 16 + q)).toNat = p * 16 + q := by
              rw [UInt8.toNat_ofNat']
              omega
            rw [hbyte, show (p * 16 + q) / 16 = p by omega, show (p * 16 + q) % 16 = q by omega]
            exact ⟨hx, hy, hrest⟩
          · rintro ⟨hx, hy, hrest⟩
            refine ⟨b.toNat / 16, ⟨by omega, hx⟩, b.toNat % 16, ⟨by omega, hy⟩, bytes, hrest, ?_, rfl⟩
            rw [show b.toNat / 16 * 16 + b.toNat % 16 = b.toNat by omega, UInt8.ofNat_toNat]
  | case3 x =>
      cases bytes with
      | nil => simp [encode]
      | cons b bytes => simp [encode]

theorem decode_encode (bytes : List UInt8) : decode (encode bytes) = some bytes := by
  have hlower : ∀ b ∈ encode bytes, lower b = b := encode_forall (by decide) bytes
  rw [decode_eq_some_iff, List.map_congr_left hlower, List.map_id']

/-- The case of letters does not matter. -/
theorem decode_lower (text : List UInt8) : decode (text.map lower) = decode text := by
  have hlower : ∀ b, lower (lower b) = lower b := by decide +kernel
  have hmap : (text.map lower).map lower = text.map lower := by
    rw [List.map_map]
    exact List.map_congr_left fun b _ => hlower b
  refine Option.ext fun bytes => ?_
  rw [decode_eq_some_iff, decode_eq_some_iff, hmap]

theorem length_encode (bytes : List UInt8) : (encode bytes).length = 2 * bytes.length := by
  induction bytes with
  | nil => rfl
  | cons b bytes ih =>
      simp only [encode, List.length_cons, ih]
      omega

end Lib.Hex
