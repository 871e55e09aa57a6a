/-
# Lib.Peaks -- the highest rank in each place

Every value has a place and a rank, and a set of values shows in each place its highest rank there. What
a set shows is known from its parts: a new value raises its own place alone (`peak_insert`), and two sets
together show in each place the higher of the two (`peak_union`). So it is the set that counts, not the
order in which its values came or how often each did.

Ranks are in a join semilattice with a bottom element, and sets are Mathlib's finite sets, so a peak is a
supremum over a filtered set and the two rules are instances of the lemmas about suprema. The empty set
shows the bottom everywhere.
-/
import Mathlib.Data.Finset.Lattice.Fold

namespace Lib.Peaks

variable {V I R : Type*} [DecidableEq I] [SemilatticeSup R] [OrderBot R] (place : V → I) (rank : V → R)

/-- The highest rank of a set in a place; an empty place is at the bottom. -/
def peak (S : Finset V) (i : I) : R := (S.filter (place · = i)).sup rank

@[simp] theorem peak_empty (i : I) : peak place rank ∅ i = ⊥ := by
  rw [peak, Finset.filter_empty, Finset.sup_empty]

theorem peak_mono {S T : Finset V} (h : S ⊆ T) (i : I) : peak place rank S i ≤ peak place rank T i :=
  Finset.sup_mono (Finset.filter_subset_filter _ h)

variable [DecidableEq V]

theorem peak_union (S T : Finset V) (i : I) :
    peak place rank (S ∪ T) i = peak place rank S i ⊔ peak place rank T i := by
  rw [peak, Finset.filter_union, Finset.sup_union]
  rfl

/-- A value raises its own place alone. -/
theorem peak_insert (v : V) (S : Finset V) (i : I) : peak place rank (insert v S) i =
    if place v = i then rank v ⊔ peak place rank S i else peak place rank S i := by
  unfold peak
  rw [Finset.filter_insert]
  by_cases h : place v = i
  · rw [if_pos h, if_pos h, Finset.sup_insert]
  · rw [if_neg h, if_neg h]

end Lib.Peaks
