/-
# Lib.Base64 -- the base64 text of bytes

Three bytes are four digits of six bits; what is left over is filled with zero bits and padded. The decoder
takes four digits at a time and looks at the padding in the last four alone. Decoding undoes encoding
(`decode_encode`), no other text is decoded to the bytes (`decode_eq_some_iff`), and the text is made of the
characters of digits and the padding (`encode_forall`).

The alphabet is the standard one, with `+` and `/`, and the padding `=` has to be there. A decoder may be
lenient in two ways, about missing padding and about bits of the last digit that no byte takes; this one is
in neither, and that is what makes the text of given bytes the only one (`encode_of_decode`).

The proofs go by four digits at a time. What one digit says is checked by running through the 64 digits and
the 256 bytes once; all else is arithmetic about quotients and remainders of bytes, and the induction of
`encode`, which takes three bytes in a step.
-/
import Mathlib.Data.FinEnum
import Mathlib.Tactic.IntervalCases

namespace Lib.Base64

/-- The character of a six-bit digit. -/
def digit (n : Nat) : UInt8 :=
  if n < 26 then UInt8.ofNat (65 + n)
  else if n < 52 then UInt8.ofNat (97 + (n - 26))
  else if n < 62 then UInt8.ofNat (48 + (n - 52))
  else if n = 62 then 43
  else 47

/-- The character that fills up the last four. -/
def pad : UInt8 := 61

/-- The digit of a character. -/
def value (b : UInt8) : Option Nat :=
  if 65 ≤ b.toNat ∧ b.toNat ≤ 90 then some (b.toNat - 65)
  else if 97 ≤ b.toNat ∧ b.toNat ≤ 122 then some (b.toNat - 97 + 26)
  else if 48 ≤ b.toNat ∧ b.toNat ≤ 57 then some (b.toNat - 48 + 52)
  else if b = 43 then some 62
  else if b = 47 then some 63
  else none

/-- Four digits for every three bytes, filled up at the end. -/
def encode : List UInt8 → List UInt8
  | [] => []
  | [a] => [digit (a.toNat / 4), digit (a.toNat % 4 * 16), pad, pad]
  | [a, b] =>
      [digit (a.toNat / 4), digit (a.toNat % 4 * 16 + b.toNat / 16), digit (b.toNat % 16 * 4), pad]
  | a :: b :: c :: rest =>
      digit (a.toNat / 4) :: digit (a.toNat % 4 * 16 + b.toNat / 16) ::
        digit (b.toNat % 16 * 4 + c.toNat / 64) :: digit (c.toNat % 64) :: encode rest

/-- The bytes of four characters, the last of which may be padding. -/
def decodeLast (w x y z : UInt8) : Option (List UInt8) :=
  (value w).bind fun p => (value x).bind fun q =>
    if y = pad ∧ z = pad then
      -- the bits that fill the last digit are zero
      if q % 16 = 0 then some [UInt8.ofNat (p * 4 + q / 16)] else none
    else
      (value y).bind fun r =>
        if z = pad then
          if r % 4 = 0 then some [UInt8.ofNat (p * 4 + q / 16), UInt8.ofNat (q % 16 * 16 + r / 4)] else none
        else
          (value z).map fun s =>
            [UInt8.ofNat (p * 4 + q / 16), UInt8.ofNat (q % 16 * 16 + r / 4), UInt8.ofNat (r % 4 * 64 + s)]

/-- The bytes of four characters without padding. -/
def decodeFull (w x y z : UInt8) : Option (List UInt8) :=
  (value w).bind fun p => (value x).bind fun q => (value y).bind fun r => (value z).map fun s =>
    [UInt8.ofNat (p * 4 + q / 16), UInt8.ofNat (q % 16 * 16 + r / 4), UInt8.ofNat (r % 4 * 64 + s)]

/-- The bytes of a padded text. Bits that no byte takes have to be zero. -/
def decode : List UInt8 → Option (List UInt8)
  | [] => some []
  | w :: x :: y :: z :: rest =>
      if rest = [] then decodeLast w x y z
      else (decodeFull w x y z).bind fun bytes => (decode rest).map (bytes ++ ·)
  | _ => none

/-! ## Digits -/

theorem value_digit {n : Nat} (h : n < 64) : value (digit n) = some n := by
  interval_cases n <;> decide

theorem digit_ne_pad {n : Nat} (h : n < 64) : digit n ≠ pad := by
  interval_cases n <;> decide

theorem ofNat_toNat_eq {b : UInt8} {n : Nat} (h : n = b.toNat) : UInt8.ofNat n = b := by
  rw [h, UInt8.ofNat_toNat]

section

variable (a b c : UInt8)

theorem decodeFull_digits : decodeFull (digit (a.toNat / 4)) (digit (a.toNat % 4 * 16 + b.toNat / 16))
    (digit (b.toNat % 16 * 4 + c.toNat / 64)) (digit (c.toNat % 64)) = some [a, b, c] := by
  have ha := a.toNat_lt
  have hb := b.toNat_lt
  have hc := c.toNat_lt
  unfold decodeFull
  rw [value_digit (by omega), value_digit (by omega), value_digit (by omega), value_digit (by omega)]
  simp only [Option.bind_some, Option.map_some]
  rw [ofNat_toNat_eq (b := a) (by omega), ofNat_toNat_eq (b := b) (by omega),
    ofNat_toNat_eq (b := c) (by omega)]

theorem decodeLast_three : decodeLast (digit (a.toNat / 4)) (digit (a.toNat % 4 * 16 + b.toNat / 16))
    (digit (b.toNat % 16 * 4 + c.toNat / 64)) (digit (c.toNat % 64)) = some [a, b, c] := by
  have hfull := decodeFull_digits a b c
  have hc := c.toNat_lt
  unfold decodeLast
  simp only [digit_ne_pad (n := c.toNat % 64) (by omega), and_false, if_false]
  exact hfull

theorem decodeLast_two : decodeLast (digit (a.toNat / 4)) (digit (a.toNat % 4 * 16 + b.toNat / 16))
    (digit (b.toNat % 16 * 4)) pad = some [a, b] := by
  have ha := a.toNat_lt
  have hb := b.toNat_lt
  unfold decodeLast
  rw [value_digit (by omega), value_digit (by omega), value_digit (by omega)]
  simp only [Option.bind_some, digit_ne_pad (n := b.toNat % 16 * 4) (by omega), false_and, if_false, if_true]
  rw [if_pos (by omega), ofNat_toNat_eq (b := a) (by omega), ofNat_toNat_eq (b := b) (by omega)]

theorem decodeLast_one :
    decodeLast (digit (a.toNat / 4)) (digit (a.toNat % 4 * 16)) pad pad = some [a] := by
  have ha := a.toNat_lt
  unfold decodeLast
  rw [value_digit (by omega), value_digit (by omega)]
  simp only [Option.bind_some, and_self, if_true]
  rw [if_pos (by omega), ofNat_toNat_eq (b := a) (by omega)]

end

/-! ## Texts -/

theorem encode_eq_nil {bytes : List UInt8} (h : encode bytes = []) : bytes = [] := by
  unfold encode at h
  split at h
  · rfl
  · cases h
  · cases h
  · cases h

/-- Decoding undoes encoding. -/
theorem decode_encode (bytes : List UInt8) : decode (encode bytes) = some bytes := by
  fun_induction encode bytes with
  | case1 => rfl
  | case2 a =>
      rw [decode, if_pos rfl]
      exact decodeLast_one a
  | case3 a b =>
      rw [decode, if_pos rfl]
      exact decodeLast_two a b
  | case4 a b c rest ih =>
      rw [decode]
      by_cases hrest : rest = []
      · subst hrest
        rw [encode, if_pos rfl]
        exact decodeLast_three a b c
      · rw [if_neg fun h => hrest (encode_eq_nil h), decodeFull_digits, ih]
        rfl

/-- What holds of the digits and of the padding holds of the whole text. -/
theorem encode_forall {P : UInt8 → Prop} (hpad : P pad) (hdigit : ∀ n < 64, P (digit n))
    (bytes : List UInt8) : ∀ b ∈ encode bytes, P b := by
  have hpart : ∀ n m : Nat, n < 256 → P (digit (n / 4)) ∧ P (digit (n % 4 * 16)) ∧
      P (digit (n % 16 * 4)) ∧ P (digit (n % 64)) ∧
      (m < 256 → P (digit (n % 4 * 16 + m / 16)) ∧ P (digit (n % 16 * 4 + m / 64))) := fun n m hn =>
    ⟨hdigit _ (by omega), hdigit _ (by omega), hdigit _ (by omega), hdigit _ (by omega),
      fun hm => ⟨hdigit _ (by omega), hdigit _ (by omega)⟩⟩
  fun_induction encode bytes with
  | case1 => exact fun b hb => absurd hb List.not_mem_nil
  | case2 a =>
      have ha := hpart a.toNat 0 a.toNat_lt
      simp only [List.forall_mem_cons]
      exact ⟨ha.1, ha.2.1, hpad, hpad, fun b hb => absurd hb List.not_mem_nil⟩
  | case3 a b =>
      have ha := hpart a.toNat b.toNat a.toNat_lt
      have hb := hpart b.toNat 0 b.toNat_lt
      simp only [List.forall_mem_cons]
      exact ⟨ha.1, (ha.2.2.2.2 b.toNat_lt).1, hb.2.2.1, hpad, fun b hb => absurd hb List.not_mem_nil⟩
  | case4 a b c rest ih =>
      have ha := hpart a.toNat b.toNat a.toNat_lt
      have hb := hpart b.toNat c.toNat b.toNat_lt
      have hc := hpart c.toNat 0 c.toNat_lt
      simp only [List.forall_mem_cons]
      exact ⟨ha.1, (ha.2.2.2.2 b.toNat_lt).1, (hb.2.2.2.2 c.toNat_lt).2, hc.2.2.2.1, ih⟩

/-! ## One text for the same bytes -/

theorem digit_value {b : UInt8} {n : Nat} (h : value b = some n) : n < 64 ∧ digit n = b := by
  have hall : ∀ b, ∀ n ∈ value b, n < 64 ∧ digit n = b := by decide +kernel
  exact hall b n h

theorem toNat_ofNat_lt {n : Nat} (h : n < 256) : (UInt8.ofNat n).toNat = n := by
  rw [UInt8.toNat_ofNat']
  exact Nat.mod_eq_of_lt h

section

variable {w x y z : UInt8} {bytes : List UInt8}

theorem encode_decodeFull (h : decodeFull w x y z = some bytes) (rest : List UInt8) :
    encode (bytes ++ rest) = w :: x :: y :: z :: encode rest := by
  simp only [decodeFull, Option.bind_eq_some_iff, Option.map_eq_some_iff] at h
  obtain ⟨p, hp, q, hq, r, hr, s, hs, rfl⟩ := h
  obtain ⟨hp64, rfl⟩ := digit_value hp
  obtain ⟨hq64, rfl⟩ := digit_value hq
  obtain ⟨hr64, rfl⟩ := digit_value hr
  obtain ⟨hs64, rfl⟩ := digit_value hs
  show encode (_ :: _ :: _ :: rest) = _
  rw [encode, toNat_ofNat_lt (by omega), toNat_ofNat_lt (by omega), toNat_ofNat_lt (by omega)]
  rw [show (p * 4 + q / 16) / 4 = p by omega,
    show (p * 4 + q / 16) % 4 * 16 + (q % 16 * 16 + r / 4) / 16 = q by omega,
    show (q % 16 * 16 + r / 4) % 16 * 4 + (r % 4 * 64 + s) / 64 = r by omega,
    show (r % 4 * 64 + s) % 64 = s by omega]

theorem encode_decodeLast (h : decodeLast w x y z = some bytes) : encode bytes = [w, x, y, z] := by
  by_cases hz : z = pad
  · subst hz
    simp only [decodeLast, Option.bind_eq_some_iff, and_true, if_true] at h
    obtain ⟨p, hp, q, hq, h⟩ := h
    obtain ⟨hp64, rfl⟩ := digit_value hp
    obtain ⟨hq64, rfl⟩ := digit_value hq
    by_cases hy : y = pad
    · subst hy
      rw [if_pos rfl] at h
      obtain ⟨hq0, hbytes⟩ := Option.ite_none_right_eq_some.mp h
      obtain rfl := Option.some.inj hbytes
      rw [encode, toNat_ofNat_lt (by omega), show (p * 4 + q / 16) / 4 = p by omega,
        show (p * 4 + q / 16) % 4 * 16 = q by omega]
    · rw [if_neg hy] at h
      obtain ⟨r, hr, hrest⟩ := Option.bind_eq_some_iff.mp h
      obtain ⟨hr64, rfl⟩ := digit_value hr
      obtain ⟨hr0, hbytes⟩ := Option.ite_none_right_eq_some.mp hrest
      obtain rfl := Option.some.inj hbytes
      rw [encode, toNat_ofNat_lt (by omega), toNat_ofNat_lt (by omega),
        show (p * 4 + q / 16) / 4 = p by omega,
        show (p * 4 + q / 16) % 4 * 16 + (q % 16 * 16 + r / 4) / 16 = q by omega,
        show (q % 16 * 16 + r / 4) % 16 * 4 = r by omega]
  · have hfull : decodeFull w x y z = some bytes := by
      rw [← h, decodeLast, decodeFull]
      simp only [hz, and_false, if_false]
    have := encode_decodeFull hfull []
    rwa [List.append_nil] at this

end

/-- Only the text of the bytes is decoded to them. -/
theorem encode_of_decode {text bytes : List UInt8} (h : decode text = some bytes) : encode bytes = text := by
  fun_induction decode text generalizing bytes with
  | case1 =>
      cases h
      rfl
  | case2 w x y z => exact encode_decodeLast h
  | case3 w x y z rest hrest ih =>
      simp only [Option.bind_eq_some_iff, Option.map_eq_some_iff] at h
      obtain ⟨first, hfirst, others, hothers, rfl⟩ := h
      rw [encode_decodeFull hfirst, ih hothers]
  | case4 => cases h

theorem decode_eq_some_iff {text bytes : List UInt8} : decode text = some bytes ↔ text = encode bytes :=
  ⟨fun h => (encode_of_decode h).symm, fun h => h ▸ decode_encode bytes⟩

/-- A text is padded unless the bytes are full groups. -/
theorem pad_mem_encode {bytes : List UInt8} (h : bytes.length % 3 ≠ 0) : pad ∈ encode bytes := by
  fun_induction encode bytes with
  | case1 => exact absurd rfl h
  | case2 a => simp
  | case3 a b => simp
  | case4 a b c rest ih =>
      have hrest : rest.length % 3 ≠ 0 := by
        simp only [List.length_cons] at h
        omega
      simp only [List.mem_cons]
      exact .inr (.inr (.inr (.inr (ih hrest))))

end Lib.Base64
