/-
# Lib.Weight -- the weight of a finite map

Every value of a map has a weight, and the map weighs as much as its values together. An insertion
and a removal move the weight by that of the cell they touch (`total_insert`, `total_erase`), so the
weight of a map is known from one change to the next without looking at the rest of it. What is taken out
cell by cell along a list, until a key is reached, weighs `ahead`.

Weights are natural numbers, and an insertion is stated with an addition on both sides in the place of a
subtraction, so that it can be used without knowing that the cell weighs less than the map. For a sum along
a list (`ahead`) a key that comes twice counts once, as it would if the cells were taken out one by one.
-/
import Daikon.Lib.Lookup
import Mathlib.Algebra.Order.Ring.Int
import Mathlib.Algebra.Order.Ring.Nat
import Mathlib.Data.List.Basic
import Mathlib.Data.List.TakeWhile
import Std.Data.ExtTreeMap

namespace Lib.Weight

open Std (ExtTreeMap)

variable {K V : Type*} {cmp : K → K → Ordering} [Std.TransCmp cmp] (w : V → Nat)

/-- The weight of a cell. -/
def cell : Option V → Nat
  | none => 0
  | some v => w v

/-- The weight of a map. -/
def total (m : ExtTreeMap K V cmp) : Nat := (m.toList.map fun p => w p.2).sum

omit [Std.TransCmp cmp] in
@[simp] theorem cell_none : cell w none = 0 := rfl

@[simp] theorem cell_some (v : V) : cell w (some v) = w v := rfl

@[simp] theorem total_empty : total w (∅ : ExtTreeMap K V cmp) = 0 := by
  rw [total, ExtTreeMap.toList_eq_nil_iff.mpr rfl, List.map_nil, List.sum_nil]

variable [Std.LawfulEqCmp cmp] (m : ExtTreeMap K V cmp) (k : K)

theorem nodup_toList : m.toList.Nodup := by
  apply m.distinct_keys_toList.imp
  intro a b hab heq
  apply hab
  rw [heq]
  exact Std.ReflCmp.compare_self

theorem toList_perm {v : V} (h : m[k]? = some v) : m.toList.Perm ((k, v) :: (m.erase k).toList) := by
  have hout : (k, v) ∉ (m.erase k).toList := by
    rw [ExtTreeMap.mem_toList_iff_getElem?_eq_some, ExtTreeMap.getElem?_erase_self]
    simp
  apply (List.perm_ext_iff_of_nodup (nodup_toList m)
    (List.nodup_cons.mpr ⟨hout, nodup_toList (m.erase k)⟩)).mpr
  rintro ⟨a, b⟩
  classical
  rw [List.mem_cons, ExtTreeMap.mem_toList_iff_getElem?_eq_some,
    ExtTreeMap.mem_toList_iff_getElem?_eq_some, Lib.Lookup.getElem?_erase]
  by_cases hk : a = k
  · rw [if_pos hk, hk, h]
    simp [eq_comm]
  · rw [if_neg hk]
    simp [hk]

/-- A removal takes the weight of the cell away. -/
theorem total_erase : total w (m.erase k) + cell w m[k]? = total w m := by
  cases hk : m[k]? with
  | none => rw [Lib.Lookup.erase_of_none m hk, cell_none, Nat.add_zero]
  | some v =>
      have hperm := ((toList_perm m k hk).map fun p => w p.2).sum_nat
      simp only [List.map_cons, List.sum_cons] at hperm
      show (((m.erase k).toList.map fun p => w p.2).sum) + w v = (m.toList.map fun p => w p.2).sum
      omega

/-- An insertion puts the new weight in the place of that of the cell. -/
theorem total_insert (v : V) : total w (m.insert k v) + cell w m[k]? = total w m + w v := by
  have hsame : (m.insert k v).erase k = m.erase k := by
    apply ExtTreeMap.ext_getElem?
    intro a
    rw [ExtTreeMap.getElem?_erase, ExtTreeMap.getElem?_erase, ExtTreeMap.getElem?_insert]
    split <;> rfl
  have hnew := total_erase w (m.insert k v) k
  have hold := total_erase w m k
  rw [hsame, ExtTreeMap.getElem?_insert_self, cell_some] at hnew
  omega

/-! ## Along a list -/

section

variable {K V : Type*} [DecidableEq K] (w : V → Nat)

/-- The weight of the cells that stand before a key in a list, each counted once. -/
def ahead (m : K → Option V) : List K → K → Nat
  | [], _ => 0
  | j :: rest, k => if k = j then 0 else cell w (m j) + ahead (Function.update m j none) rest k

theorem ahead_cons_self (m : K → Option V) (k : K) (rest : List K) : ahead w m (k :: rest) k = 0 :=
  if_pos rfl

theorem ahead_cons_of_ne (m : K → Option V) {j k : K} (h : k ≠ j) (rest : List K) :
    ahead w m (j :: rest) k = cell w (m j) + ahead w (Function.update m j none) rest k := if_neg h

/-- Only the cells before the key count. -/
theorem ahead_congr {k : K} {order : List K} : ∀ {m m' : K → Option V},
    (∀ j ∈ order.takeWhile (· ≠ k), m j = m' j) → ahead w m order k = ahead w m' order k := by
  induction order with
  | nil => intro m m' _; rfl
  | cons j rest ih =>
      intro m m' h
      by_cases hk : k = j
      · rw [ahead, ahead, if_pos hk, if_pos hk]
      · have hj : j ≠ k := fun heq => hk heq.symm
        rw [List.takeWhile_cons, if_pos (by simpa using hj)] at h
        rw [ahead_cons_of_ne w m hk, ahead_cons_of_ne w m' hk, h j List.mem_cons_self, ih]
        intro i hi
        by_cases hij : i = j
        · rw [hij, Function.update_self, Function.update_self]
        · rw [Function.update_of_ne hij, Function.update_of_ne hij]
          exact h i (List.mem_cons_of_mem _ hi)

theorem ahead_mono {k : K} {order : List K} : ∀ {m m' : K → Option V},
    (∀ j, cell w (m j) ≤ cell w (m' j)) → ahead w m order k ≤ ahead w m' order k := by
  induction order with
  | nil => intro m m' _; exact Nat.le_refl _
  | cons j rest ih =>
      intro m m' h
      by_cases hk : k = j
      · rw [ahead, ahead, if_pos hk, if_pos hk]
      · rw [ahead_cons_of_ne w m hk, ahead_cons_of_ne w m' hk]
        refine Nat.add_le_add (h j) (ih fun i => ?_)
        by_cases hij : i = j
        · rw [hij, Function.update_self, Function.update_self]
        · rw [Function.update_of_ne hij, Function.update_of_ne hij]
          exact h i

end

end Lib.Weight
