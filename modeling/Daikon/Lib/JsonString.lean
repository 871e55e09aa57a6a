/-
# Lib.JsonString -- the text of a JSON string, written and read back

A writer that escapes what JSON says must be escaped, as the shortest escape there is, and a reader
that undoes every escape that a single code unit can express. Reading stops at the closing quote and
returns what follows it, so the reader composes with others (`read_write`).

A character that must be escaped has a letter of its own in seven cases (`shortEscapes`) and is written with
four hexadecimal digits in all others. The reader accepts more than is written: any character may come as
digits, of either case. It refuses a control character that stands for itself, a surrogate (which names no
character on its own), and a text without its closing quote.

So `read_write` is one direction only. Texts that were not written by `write` may be read as the same
characters, and nothing here says that they are not.
-/
import Mathlib.Data.List.Basic

namespace Lib.JsonString

/-- The double quote and the backslash, by code point. -/
def quote : Char := Char.ofNat 34

/-- The character that begins an escape. -/
def backslash : Char := Char.ofNat 92

/-- The two-character escapes: the character escaped, and the letter that stands for it. -/
def shortEscapes : List (Char × Char) :=
  [(quote, quote), (backslash, backslash), (Char.ofNat 8, 'b'), (Char.ofNat 9, 't'),
    (Char.ofNat 10, 'n'), (Char.ofNat 12, 'f'), (Char.ofNat 13, 'r')]

/-- A digit below sixteen, with small letters. -/
def hexDigit (n : Nat) : Char := if n < 10 then Char.ofNat (48 + n) else Char.ofNat (87 + n)

/-- The number of a digit, of either case. -/
def hexValue (c : Char) : Option Nat :=
  if '0' ≤ c ∧ c ≤ '9' then some (c.toNat - 48)
  else if 'a' ≤ c ∧ c ≤ 'f' then some (c.toNat - 87)
  else if 'A' ≤ c ∧ c ≤ 'F' then some (c.toNat - 55)
  else none

/-- Four hexadecimal digits that name a character on their own. -/
def readUnit (a b c d : Char) : Option Char :=
  match hexValue a, hexValue b, hexValue c, hexValue d with
  | some a, some b, some c, some d =>
      let n := ((a * 16 + b) * 16 + c) * 16 + d
      if 0xD800 ≤ n ∧ n < 0xE000 then none else some (Char.ofNat n)
  | _, _, _, _ => none

/-- One character, escaped. -/
def writeChar (c : Char) : List Char :=
  match shortEscapes.find? (fun p => p.1 = c) with
  | some p => [backslash, p.2]
  | none =>
      if c.toNat < 32 then
        [backslash, 'u', '0', '0', hexDigit (c.toNat / 16), hexDigit (c.toNat % 16)]
      else [c]

/-- The characters between the quotes. -/
def write (s : List Char) : List Char := s.flatMap writeChar

/-- Read up to the closing quote; a bare control character or a bad escape is refused. -/
def read : List Char → Option (List Char × List Char)
  | [] => none
  | c :: cs =>
      if c = quote then some ([], cs)
      else if c = backslash then
        match cs with
        | [] => none
        | e :: cs =>
            if e = 'u' then
              match cs with
              | h₁ :: h₂ :: h₃ :: h₄ :: cs =>
                  match readUnit h₁ h₂ h₃ h₄, read cs with
                  | some u, some (s, rest) => some (u :: s, rest)
                  | _, _ => none
              | _ => none
            else
              match shortEscapes.find? (fun p => p.2 = e), read cs with
              | some p, some (s, rest) => some (p.1 :: s, rest)
              | _, _ => none
      else if c.toNat < 32 then none
      else
        match read cs with
        | some (s, rest) => some (c :: s, rest)
        | none => none

/-! ## Reading back -/

theorem readUnit_control : ∀ n < 32,
    readUnit '0' '0' (hexDigit (n / 16)) (hexDigit (n % 16)) = some (Char.ofNat n) := by
  decide

/-- The letters of the short escapes are distinct, and none is the letter of the long one. -/
theorem shortEscapes_letters : ∀ p ∈ shortEscapes,
    p.2 ≠ 'u' ∧ shortEscapes.find? (fun q => q.2 = p.2) = some p := by
  decide

theorem read_writeChar (c : Char) (cs : List Char) :
    read (writeChar c ++ cs) = (read cs).map fun r => (c :: r.1, r.2) := by
  unfold writeChar
  cases hshort : shortEscapes.find? (fun p => p.1 = c) with
  | some p =>
      have hc : p.1 = c := by simpa using List.find?_some hshort
      obtain ⟨hu, hletter⟩ := shortEscapes_letters p (List.mem_of_find?_eq_some hshort)
      have hne : ¬ backslash = quote := by decide
      simp only [List.cons_append, List.nil_append]
      rw [read.eq_def]
      simp only [if_neg hne, if_true, if_neg hu, hletter]
      cases read cs <;> simp [hc]
  | none =>
      have hplain : ∀ p ∈ shortEscapes, p.1 ≠ c := by simpa using hshort
      have hq : ¬ c = quote := fun h => hplain (quote, quote) (by simp [shortEscapes]) h.symm
      have hb : ¬ c = backslash := fun h => hplain (backslash, backslash) (by simp [shortEscapes]) h.symm
      by_cases hctl : c.toNat < 32
      · have hne : ¬ backslash = quote := by decide
        have hunit := readUnit_control c.toNat hctl
        rw [Char.ofNat_toNat] at hunit
        simp only [if_pos hctl, List.cons_append, List.nil_append]
        rw [read.eq_def]
        simp only [if_neg hne, if_true, hunit]
        cases read cs <;> rfl
      · simp only [if_neg hctl, List.cons_append, List.nil_append]
        rw [read.eq_def]
        simp only [if_neg hq, if_neg hb, if_neg hctl]
        cases read cs <;> rfl

/-- What was written is read back, and what follows the closing quote is left. -/
theorem read_write (s rest : List Char) : read (write s ++ quote :: rest) = some (s, rest) := by
  induction s with
  | nil =>
      rw [write, List.flatMap_nil, List.nil_append, read.eq_def]
      simp only [if_true]
  | cons c s ih =>
      rw [write, List.flatMap_cons, List.append_assoc, read_writeChar]
      rw [write] at ih
      rw [ih]
      rfl

end Lib.JsonString
