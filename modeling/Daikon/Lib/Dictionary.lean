/-
# Lib.Dictionary -- finite maps under inserts and removals

A finite map that is updated by lists of pairs to insert and lists of keys to remove. An update counts the
keys it has brought in or taken out, so over any run the size is the sum of the counts of the inserts less
that of the removals (`run_balance`). A key that is repeated in one update, or that was there already,
counts once or not at all.

The maps are Mathlib's `Finmap`, for which an insertion and a removal have their lemmas. What is proved on
top of them is about counting: one insertion changes the number of keys by one or by none, and so a list of
them by at most its length. The count of an update is stated as a difference of two sizes, and not as the
number of its arguments, because arguments may repeat.
-/
import Mathlib.Algebra.BigOperators.Group.List.Basic
import Mathlib.Algebra.Ring.Int.Defs
import Mathlib.Data.Finmap

namespace Lib.Dictionary

variable {K V : Type*} [DecidableEq K]

/-- A finite map from keys to values. -/
abbrev Dict (K V : Type*) := Finmap fun _ : K => V

/-- A change of several keys at once. -/
inductive Update (K V : Type*) where
  | set (pairs : List (K × V))
  | remove (keys : List K)

/-- The pairs in turn; of two at one key the later one stays. -/
def setAll (pairs : List (K × V)) (m : Dict K V) : Dict K V :=
  pairs.foldl (fun m p => m.insert p.1 p.2) m

/-- The keys in turn; one that is not there is passed over. -/
def removeAll (keys : List K) (m : Dict K V) : Dict K V :=
  keys.foldl (fun m k => m.erase k) m

/-- The number of keys. -/
def size (m : Dict K V) : Nat := m.keys.card

/-- The number of keys that an update brings in or takes out, and the map it leaves. -/
def step (m : Dict K V) : Update K V → Nat × Dict K V
  | .set pairs => (size (setAll pairs m) - size m, setAll pairs m)
  | .remove keys => (size m - size (removeAll keys m), removeAll keys m)

/-- The counts of a list of updates, and the map in the end. -/
def run (m : Dict K V) : List (Update K V) → List Nat × Dict K V
  | [] => ([], m)
  | u :: us =>
      let rest := run (step m u).2 us
      ((step m u).1 :: rest.1, rest.2)

/-- A count, with the sign that it has in the balance. -/
def signed : Update K V → Nat → Int
  | .set _, n => n
  | .remove _, n => -n

theorem eq_empty_of_size {m : Dict K V} (h : size m = 0) : m = ∅ := by
  apply Finmap.ext_lookup
  intro k
  rw [Finmap.lookup_empty, Finmap.lookup_eq_none, ← Finmap.mem_keys, Finset.card_eq_zero.mp h]
  exact Finset.notMem_empty k

/-! ## One key -/

section

variable (m : Dict K V) (k : K)

theorem size_insert (v : V) : size (m.insert k v) = if k ∈ m then size m else size m + 1 := by
  have hkeys : (m.insert k v).keys = insert k m.keys := by
    ext k'
    rw [Finmap.mem_keys, Finmap.mem_insert, Finset.mem_insert, Finmap.mem_keys]
  unfold size
  rw [hkeys]
  split
  · next h => rw [Finset.insert_eq_of_mem (Finmap.mem_keys.mpr h)]
  · next h => rw [Finset.card_insert_of_notMem fun hmem => h (Finmap.mem_keys.mp hmem)]

theorem size_erase : size m = if k ∈ m then size (m.erase k) + 1 else size (m.erase k) := by
  unfold size
  rw [Finmap.keys_erase]
  split
  · next h => exact (Finset.card_erase_add_one (Finmap.mem_keys.mpr h)).symm
  · next h => rw [Finset.erase_eq_of_notMem fun hmem => h (Finmap.mem_keys.mp hmem)]

end

/-! ## Updates and runs -/

theorem size_le_setAll (pairs : List (K × V)) : ∀ m : Dict K V, size m ≤ size (setAll pairs m) := by
  induction pairs with
  | nil => exact fun m => le_rfl
  | cons p pairs ih =>
      intro m
      refine le_trans ?_ (ih (m.insert p.1 p.2))
      rw [size_insert]
      split
      · exact le_rfl
      · exact Nat.le_succ _

theorem removeAll_size_le (keys : List K) : ∀ m : Dict K V, size (removeAll keys m) ≤ size m := by
  induction keys with
  | nil => exact fun m => le_rfl
  | cons k keys ih =>
      intro m
      refine le_trans (ih (m.erase k)) ?_
      rw [size_erase m k]
      split
      · exact Nat.le_succ _
      · exact le_rfl

theorem step_balance (m : Dict K V) (u : Update K V) :
    (size (step m u).2 : Int) = size m + signed u (step m u).1 := by
  cases u with
  | set pairs =>
      have hle := size_le_setAll pairs m
      show (size (setAll pairs m) : Int) = size m + ((size (setAll pairs m) - size m : Nat) : Int)
      omega
  | remove keys =>
      have hle := removeAll_size_le keys m
      show (size (removeAll keys m) : Int) = size m + -((size m - size (removeAll keys m) : Nat) : Int)
      omega

/-- The size is what the inserts have brought in less what the removals have taken out. -/
theorem run_balance (us : List (Update K V)) : ∀ m : Dict K V,
    (size (run m us).2 : Int) = size m + (us.zipWith signed (run m us).1).sum := by
  induction us with
  | nil =>
      intro m
      show (size m : Int) = size m + 0
      rw [add_zero]
  | cons u us ih =>
      intro m
      have hstep := step_balance m u
      show (size (run (step m u).2 us).2 : Int) = _
      rw [ih, hstep, run, List.zipWith_cons_cons, List.sum_cons, add_assoc]

end Lib.Dictionary
