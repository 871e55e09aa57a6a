/-
# Lib.Lookup -- lookups in a map whose order tells keys apart

A map looks a key up by its comparison. Where only equal keys compare equal, a lookup after an insertion
or a removal asks whether the keys are equal, and a map that has a cell already is not changed by
inserting it.

The maps are the extensional trees of the standard library, whose lookups are lemmas about comparison. These
are the same lemmas under the assumption that the comparison is that of a lawful order, with equality of
keys in its place, and in the form in which a proof about a store meets them: an insertion read at another
key, an insertion of what is there already, and the keys of the pairs of a map.
-/
import Mathlib.Data.List.Basic
import Std.Data.ExtTreeMap

namespace Lib.Lookup

open Std (ExtTreeMap)

variable {K V : Type*} {cmp : K → K → Ordering} [Std.TransCmp cmp] [Std.LawfulEqCmp cmp]
  (m : ExtTreeMap K V cmp)

section

variable [DecidableEq K]

theorem getElem?_insert (k a : K) (v : V) : (m.insert k v)[a]? = if a = k then some v else m[a]? := by
  rw [ExtTreeMap.getElem?_insert]
  exact if_congr ⟨fun h => (Std.LawfulEqCmp.eq_of_compare h).symm, fun h => h ▸ Std.ReflCmp.compare_self⟩
    rfl rfl

theorem getElem?_erase (k a : K) : (m.erase k)[a]? = if a = k then none else m[a]? := by
  rw [ExtTreeMap.getElem?_erase]
  exact if_congr ⟨fun h => (Std.LawfulEqCmp.eq_of_compare h).symm, fun h => h ▸ Std.ReflCmp.compare_self⟩
    rfl rfl

end

theorem insert_same {k : K} {v : V} (h : m[k]? = some v) : m.insert k v = m := by
  classical
  refine ExtTreeMap.ext_getElem? fun {a} => ?_
  rw [getElem?_insert]
  split
  · next heq => rw [heq, h]
  · rfl

theorem erase_of_none {k : K} (h : m[k]? = none) : m.erase k = m := by
  classical
  refine ExtTreeMap.ext_getElem? fun {a} => ?_
  rw [getElem?_erase]
  split
  · next heq => rw [heq, h]
  · rfl

/-- The keys of the pairs of a map, each once. -/
theorem nodup_keys_toList : (m.toList.map Prod.fst).Nodup := by
  refine List.Pairwise.map Prod.fst (fun p q hne heq => hne ?_) ExtTreeMap.distinct_keys_toList
  rw [heq]
  exact Std.ReflCmp.compare_self

end Lib.Lookup
