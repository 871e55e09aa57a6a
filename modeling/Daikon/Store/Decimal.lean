/-
# Daikon.Store.Decimal -- integers as text, read back

What `to_string` writes of an integer is what `parse` reads (`parseDigits_repr`, `textInt_toString`).
`textInt` is the integer that a text denotes, of any size: `str::parse::<i64>` is that integer where it
fits (`parseI64_eq`).

The reading goes digit by digit with an accumulator, as the source's parser does, and the writing is that of
Lean's `Nat.repr`. The two meet in `parseDigits_repr`, whose induction is on the number; everything about
signs and ranges is on top of it. Names of snapshots and backups, time stamps and hash fields all go through
these lemmas.
-/
import Daikon.Store.Value
import Mathlib.Data.Int.Notation

namespace Daikon

theorem parseDigits_toDigits (n : Nat) : parseDigits (Nat.toDigits 10 n) = some n := by
  have hdigits : (Nat.toDigits 10 n).all Char.isDigit = true :=
    List.all_eq_true.mpr fun c hc => Nat.isDigit_of_mem_toDigits (by decide) (by decide) hc
  unfold parseDigits
  rw [if_pos ⟨Nat.toDigits_ne_nil, hdigits⟩, ← Nat.ofDigitChars_eq_foldl,
    Nat.ofDigitChars_ten_toDigits]

/-- A run of digits starts with no sign. -/
theorem toDigits_cases (n : Nat) :
    ∃ c ds, Nat.toDigits 10 n = c :: ds ∧ c ≠ '-' ∧ c ≠ '+' := by
  cases h : Nat.toDigits 10 n with
  | nil => exact absurd h Nat.toDigits_ne_nil
  | cons c ds =>
      have hdigit : c.isDigit = true :=
        Nat.isDigit_of_mem_toDigits (b := 10) (n := n) (by decide) (by decide) (by simp [h])
      refine ⟨c, ds, rfl, ?_, ?_⟩ <;> rintro rfl <;> exact absurd hdigit (by decide)

/-- The integer that a decimal text denotes. -/
def textInt (text : String) : Option Int :=
  match text.toList with
  | '-' :: ds => (parseDigits ds).map fun n : Nat => -(n : Int)
  | '+' :: ds => (parseDigits ds).map fun n : Nat => (n : Int)
  | ds => (parseDigits ds).map fun n : Nat => (n : Int)

/-- An `i64` can hold the integer. -/
def FitsI64 (i : Int) : Prop := -2 ^ 63 ≤ i ∧ i < 2 ^ 63

instance (i : Int) : Decidable (FitsI64 i) := inferInstanceAs (Decidable (_ ∧ _))

theorem fitsI64_toInt (i : Int64) : FitsI64 i.toInt := ⟨i.le_toInt, i.toInt_lt⟩

theorem toInt_ofInt_of_fits {i : Int} (h : FitsI64 i) : (Int64.ofInt i).toInt = i :=
  Int64.toInt_ofInt_of_le h.1 h.2

theorem textInt_minus {text : String} {ds : List Char} (h : text.toList = '-' :: ds) :
    textInt text = (parseDigits ds).map fun n : Nat => -(n : Int) := by
  unfold textInt
  rw [h]
  rfl

theorem textInt_plus {text : String} {ds : List Char} (h : text.toList = '+' :: ds) :
    textInt text = (parseDigits ds).map fun n : Nat => (n : Int) := by
  unfold textInt
  rw [h]
  rfl

theorem textInt_unsigned {text : String} (hminus : ∀ ds, text.toList = '-' :: ds → False)
    (hplus : ∀ ds, text.toList = '+' :: ds → False) :
    textInt text = (parseDigits text.toList).map fun n : Nat => (n : Int) := by
  unfold textInt
  split
  · next ds heq => exact (hminus ds heq).elim
  · next ds heq => exact (hplus ds heq).elim
  · rfl

theorem parseI64_eq (text : String) :
    parseI64 text = (textInt text).bind fun i => if FitsI64 i then some (Int64.ofInt i) else none := by
  have hneg : ∀ n : Nat, n ≤ 2 ^ 63 ↔ FitsI64 (-(n : Int)) := fun n => by unfold FitsI64; omega
  have hpos : ∀ n : Nat, n < 2 ^ 63 ↔ FitsI64 (n : Int) := fun n => by unfold FitsI64; omega
  unfold parseI64
  simp only [hneg, hpos]
  -- a minus, a plus, or no sign
  split
  · next ds heq =>
      rw [textInt_minus heq, Option.bind_map, Function.comp_def]
  · next ds heq =>
      rw [textInt_plus heq, Option.bind_map, Function.comp_def]
  · next hminus hplus =>
      rw [textInt_unsigned hminus hplus, Option.bind_map, Function.comp_def]

theorem textInt_toString (i : Int) : textInt (toString i) = some i := by
  cases i with
  | ofNat n =>
      obtain ⟨c, ds, hcons, hminus, hplus⟩ := toDigits_cases n
      have htext : (toString (Int.ofNat n)).toList = Nat.toDigits 10 n := Nat.toList_repr
      have hstart : ∀ sign rest, sign ≠ c → (toString (Int.ofNat n)).toList = sign :: rest → False := by
        intro sign rest hne heq
        rw [htext, hcons] at heq
        exact hne (List.cons.inj heq).1.symm
      rw [textInt_unsigned (fun rest => hstart _ rest hminus.symm) (fun rest => hstart _ rest hplus.symm),
        htext, parseDigits_toDigits]
      rfl
  | negSucc n =>
      have htext : (toString (Int.negSucc n)).toList = '-' :: Nat.toDigits 10 (n + 1) := by
        show ("-" ++ Nat.repr (n + 1)).toList = _
        rw [String.toList_append, Nat.toList_repr]
        rfl
      rw [textInt_minus htext, parseDigits_toDigits]
      rfl

end Daikon
