/-
# Daikon.Store.Registers -- a sketch is a function of its set of values

The hash of a value selects a register and gives a rank. A sketch made of adds and merges has in every
register the highest rank of the values that select it (`ofSet`), so it is known from their set: adding
puts one value more into the set (`ofSet_add`), merging joins two sets (`ofSet_merge`). The laws of a
merge are those of the union (`sketch_laws`).

The induction is over the way a sketch was built (`Build`), and the invariant is that its registers are
those of the set of its values. From there the laws are one line each: commutativity, associativity and
idempotence of the union, that the empty sketch changes nothing, that repeated and reordered values make no
difference, and that a register never goes down.

Nothing is asked of the hash but that it is a function to 64-bit words, so the laws hold of the hasher that
the standard library happens to have, and of any other.
-/
import Daikon.Lib.Peaks
import Daikon.Store.Merge
import Mathlib.Order.Lattice.Nat

namespace Daikon

namespace HyperLogLog

open Lib.Peaks

/-- The register that a value selects. -/
def index (hashValue : String → UInt64) (precision : Nat) (value : String) : Nat :=
  (hashValue value).toNat >>> (64 - precision)

/-- The rank that a value gives its register. -/
def rank (hashValue : String → UInt64) (precision : Nat) (value : String) : Nat :=
  min (leadingZeros ((hashValue value).toNat <<< precision % 2 ^ 64) + 1) (64 - precision + 1) % 2 ^ 8

/-- The sketch of a set of values. -/
def ofSet (hashValue : String → UInt64) (precision : Nat) (S : Finset String) : HyperLogLog :=
  { precision
    registers :=
      (List.range (2 ^ precision)).map (peak (index hashValue precision) (rank hashValue precision) S) }

variable (hashValue : String → UInt64) {precision : Nat}

/-- A value selects a register that is there. -/
theorem index_lt (h : precision ≤ 64) (value : String) :
    index hashValue precision value < 2 ^ precision := by
  have hword : (hashValue value).toNat < 2 ^ (64 - precision) * 2 ^ precision := by
    rw [← Nat.pow_add, Nat.sub_add_cancel h]
    exact (hashValue value).toNat_lt
  rw [index, Nat.shiftRight_eq_div_pow]
  exact Nat.div_lt_of_lt_mul hword

@[simp] theorem add_precision (hll : HyperLogLog) (value : String) :
    (hll.add hashValue value).1.precision = hll.precision := by
  unfold add
  simp only
  split
  · split <;> rfl
  · rfl

/-- An add raises the register that the value selects, and no other. -/
theorem add_register (hll : HyperLogLog) (value : String) {i : Nat} (hi : i < hll.registers.length) :
    (hll.add hashValue value).1.register i =
      if index hashValue hll.precision value = i then
        max (rank hashValue hll.precision value) (hll.register i)
      else hll.register i := by
  unfold add index rank
  simp only
  generalize (hashValue value).toNat >>> (64 - hll.precision) = j,
    min (leadingZeros ((hashValue value).toNat <<< hll.precision % 2 ^ 64) + 1)
      (64 - hll.precision + 1) % 2 ^ 8 = r
  unfold register
  by_cases hj : j = i
  · subst hj
    rw [if_pos rfl, List.getElem?_eq_getElem hi, List.getD_eq_getElem _ _ hi]
    simp only
    split
    · next h =>
        rw [List.getD_eq_getElem _ _ (by rwa [List.length_set]), List.getElem_set_self, max_eq_left h.le]
    · next h => rw [List.getD_eq_getElem _ _ hi, max_eq_right (Nat.le_of_not_lt h)]
  · rw [if_neg hj]
    split
    · split
      · simp only [List.getD_eq_getElem?_getD, List.getElem?_set_ne hj]
      · rfl
    · rfl

/-! ## The sketch of a set -/

section

variable (S T : Finset String)

@[simp] theorem ofSet_length : (ofSet hashValue precision S).registers.length = 2 ^ precision := by
  rw [ofSet, List.length_map, List.length_range]

theorem ofSet_register {i : Nat} (hi : i < 2 ^ precision) : (ofSet hashValue precision S).register i =
    peak (index hashValue precision) (rank hashValue precision) S i := by
  unfold register ofSet
  rw [List.getD_eq_getElem _ _ (by simpa using hi), List.getElem_map, List.getElem_range]

theorem eq_ofSet {hll : HyperLogLog} (hprecision : hll.precision = precision)
    (hlength : hll.registers.length = 2 ^ precision)
    (h : ∀ i < 2 ^ precision, hll.register i =
      peak (index hashValue precision) (rank hashValue precision) S i) :
    hll = ofSet hashValue precision S := by
  apply ext_register (b := ofSet hashValue precision S) hprecision
  · rw [hlength, ofSet_length]
  · intro i hi
    rw [hlength] at hi
    rw [h i hi, ofSet_register hashValue S hi]

theorem new_eq_ofSet (requested : Nat) :
    HyperLogLog.new requested = ofSet hashValue (HyperLogLog.new requested).precision ∅ := by
  apply eq_ofSet hashValue ∅ rfl List.length_replicate
  intro i _
  rw [peak_empty, new_register]
  rfl

theorem ofSet_add (value : String) : ((ofSet hashValue precision S).add hashValue value).1
    = ofSet hashValue precision (insert value S) := by
  apply eq_ofSet hashValue
  · exact add_precision hashValue _ value
  · rw [add_registers_length, ofSet_length]
  · intro i hi
    rw [add_register hashValue _ value (by rwa [ofSet_length]), ofSet_register hashValue S hi, peak_insert]
    rfl

theorem ofSet_merge : (ofSet hashValue precision S).merge (ofSet hashValue precision T)
    = .ok (ofSet hashValue precision (S ∪ T)) := by
  obtain ⟨merged, hmerged⟩ : ∃ merged,
      (ofSet hashValue precision S).merge (ofSet hashValue precision T) = .ok merged :=
    ⟨_, if_neg (not_not.mpr rfl)⟩
  rw [hmerged]
  congr 1
  apply eq_ofSet hashValue
  · exact merge_precision hmerged
  · rw [merge_registers_length hmerged, ofSet_length]
  · intro i hi
    rw [merge_register hmerged (by rwa [ofSet_length]), ofSet_register hashValue S hi,
      ofSet_register hashValue T hi, peak_union]

theorem ofSet_addAll (values : List String) : ∀ S : Finset String,
    addAll hashValue values (ofSet hashValue precision S)
      = ofSet hashValue precision (S ∪ values.toFinset) := by
  induction values with
  | nil => intro S; rw [List.toFinset_nil, Finset.union_empty]; rfl
  | cons value values ih =>
      intro S
      have hstep : addAll hashValue (value :: values) (ofSet hashValue precision S)
          = addAll hashValue values ((ofSet hashValue precision S).add hashValue value).1 := rfl
      rw [hstep, ofSet_add, ih, List.toFinset_cons, Finset.insert_union, Finset.union_insert]

end

theorem ofSet_mono {S T : Finset String} (h : S ⊆ T) (i : Nat) :
    (ofSet hashValue precision S).register i ≤ (ofSet hashValue precision T).register i := by
  by_cases hi : i < 2 ^ precision
  · rw [ofSet_register hashValue S hi, ofSet_register hashValue T hi]
    exact peak_mono _ _ h i
  · unfold register
    rw [List.getD_eq_default _ _ (by rw [ofSet_length]; omega)]
    exact Nat.zero_le _

/-! ## Adds and merges in any order -/

/-- How a sketch can be made. -/
inductive Build where
  | new
  | add (b : Build) (value : String)
  | merge (b c : Build)

/-- The sketch that is made, from empty ones of this precision. -/
def Build.run (hashValue : String → UInt64) (precision : Nat) : Build → Except KvStoreError HyperLogLog
  | new => .ok (HyperLogLog.new precision)
  | add b value => (b.run hashValue precision).map fun hll => (hll.add hashValue value).1
  | merge b c =>
      (b.run hashValue precision).bind fun hll =>
        (c.run hashValue precision).bind fun other => hll.merge other

/-- The values that were added. -/
def Build.values : Build → List String
  | new => []
  | add b value => b.values ++ [value]
  | merge b c => b.values ++ c.values

/-- The sketch of a list: its values are added to an empty one. -/
def sketch (hashValue : String → UInt64) (precision : Nat) (values : List String) : HyperLogLog :=
  addAll hashValue values (HyperLogLog.new precision)

variable (precision)

theorem sketch_eq_ofSet (values : List String) : sketch hashValue precision values
    = ofSet hashValue (HyperLogLog.new precision).precision values.toFinset := by
  unfold sketch
  rw [new_eq_ofSet hashValue precision, ofSet_addAll, Finset.empty_union]
  rfl

theorem sketch_merge (xs ys : List String) :
    (sketch hashValue precision xs).merge (sketch hashValue precision ys)
      = .ok (sketch hashValue precision (xs ++ ys)) := by
  rw [sketch_eq_ofSet, sketch_eq_ofSet, ofSet_merge, sketch_eq_ofSet, List.toFinset_append]

theorem Build.run_eq (b : Build) : b.run hashValue precision = .ok (sketch hashValue precision b.values) := by
  induction b with
  | new => rfl
  | add b value ih =>
      show (b.run hashValue precision).map _ = _
      rw [ih]
      show Except.ok _ = Except.ok (addAll hashValue (b.values ++ [value]) _)
      rw [addAll, List.foldl_append]
      rfl
  | merge b c ihb ihc =>
      show (b.run hashValue precision).bind _ = _
      rw [ihb, ihc]
      exact sketch_merge hashValue precision b.values c.values

/-- The sketch of a list is known from its set of values. -/
theorem sketch_congr {xs ys : List String} (h : ∀ v, v ∈ xs ↔ v ∈ ys) :
    sketch hashValue precision xs = sketch hashValue precision ys := by
  have heq : xs.toFinset = ys.toFinset := by
    ext v
    rw [List.mem_toFinset, List.mem_toFinset, h v]
  rw [sketch_eq_ofSet, sketch_eq_ofSet, heq]

theorem Build.run_congr {b c : Build} (h : ∀ v, v ∈ b.values ↔ v ∈ c.values) :
    b.run hashValue precision = c.run hashValue precision := by
  rw [Build.run_eq, Build.run_eq, sketch_congr hashValue precision h]

/-- More values never lower a register. -/
theorem Build.register_mono {b c : Build} {hll more : HyperLogLog} (hsub : b.values ⊆ c.values)
    (hb : b.run hashValue precision = .ok hll) (hc : c.run hashValue precision = .ok more) (i : Nat) :
    hll.register i ≤ more.register i := by
  rw [Build.run_eq] at hb hc
  cases hb
  cases hc
  rw [sketch_eq_ofSet, sketch_eq_ofSet]
  apply ofSet_mono hashValue
  intro v hv
  exact List.mem_toFinset.mpr (hsub (List.mem_toFinset.mp hv))

/-- The sketches of one precision, under any hash: every value has a register, what a list adds is known
from the set of its values, merging is adding both lists, and any adds and merges give the sketch of all
values that went into them. So merging does not depend on order, grouping or repetition, and no add or
merge lowers a register. -/
theorem sketch_laws (hashValue : String → UInt64) (precision : Nat) :
    (∀ value, index hashValue (HyperLogLog.new precision).precision value
      < (HyperLogLog.new precision).registers.length) ∧
    (∀ start xs ys : List String, (∀ v, v ∈ xs ↔ v ∈ ys) →
      addAll hashValue xs (sketch hashValue precision start)
        = addAll hashValue ys (sketch hashValue precision start)) ∧
    (∀ xs ys : List String, (sketch hashValue precision xs).merge (sketch hashValue precision ys)
      = .ok (addAll hashValue (xs ++ ys) (HyperLogLog.new precision))) ∧
    (∀ b : Build, b.run hashValue precision = .ok (sketch hashValue precision b.values)) ∧
    (∀ b c : Build, (b.merge c).run hashValue precision = (c.merge b).run hashValue precision) ∧
    (∀ b c d : Build,
      ((b.merge c).merge d).run hashValue precision = (b.merge (c.merge d)).run hashValue precision) ∧
    (∀ b : Build, (b.merge b).run hashValue precision = b.run hashValue precision) ∧
    (∀ (b : Build) (value : String) (hll added : HyperLogLog), b.run hashValue precision = .ok hll →
      (b.add value).run hashValue precision = .ok added → ∀ i, hll.register i ≤ added.register i) ∧
    (∀ (b c : Build) (hll other merged : HyperLogLog), b.run hashValue precision = .ok hll →
      c.run hashValue precision = .ok other → (b.merge c).run hashValue precision = .ok merged →
        ∀ i, hll.register i ≤ merged.register i ∧ other.register i ≤ merged.register i) := by
  refine ⟨fun value => ?_, fun start xs ys h => ?_, sketch_merge hashValue precision,
    Build.run_eq hashValue precision, fun b c => ?_, fun b c d => ?_, fun b => ?_,
    fun b value hll added hb hadd i => ?_, fun b c hll other merged hb hc hmerge i => ⟨?_, ?_⟩⟩
  · have hlarge : (HyperLogLog.new precision).precision ≤ 64 := by
      show max 4 (min precision 16) ≤ 64
      omega
    rw [HyperLogLog.new, List.length_replicate]
    exact index_lt hashValue hlarge value
  · have happend : ∀ zs, addAll hashValue zs (sketch hashValue precision start)
        = sketch hashValue precision (start ++ zs) := fun zs => (List.foldl_append).symm
    rw [happend, happend]
    apply sketch_congr
    intro v
    rw [List.mem_append, List.mem_append, h v]
  · exact Build.run_congr hashValue precision fun v => by simp [Build.values, or_comm]
  · exact Build.run_congr hashValue precision fun v => by simp [Build.values]
  · exact Build.run_congr hashValue precision fun v => by simp [Build.values]
  · exact Build.register_mono hashValue precision (List.subset_append_left _ _) hb hadd i
  · exact Build.register_mono hashValue precision (List.subset_append_left _ _) hb hmerge i
  · exact Build.register_mono hashValue precision (List.subset_append_right _ _) hc hmerge i

end HyperLogLog

end Daikon
