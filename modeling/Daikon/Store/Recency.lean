/-
# Daikon.Store.Recency -- which keys the eviction loop can reach

Eviction takes its victims from the recency list, so a key that is in the store and not in the list
is out of its reach.

Being tracked is stated so that a key without an entry is, for there is nothing to be reached. A put tracks
its key, an eviction keeps every key tracked, and a removal may make a key tracked that was not. So the keys
that are not tracked are those that came into the store in another way than through a put, which happens
where a store is read back from a document.
-/
import Daikon.Store.Refine

namespace Daikon

namespace KvStore

/-- The key is in the recency list, or not in the store. -/
def Tracked (s : KvStore) (k : String) : Prop := k ∈ s.store → k ∈ s.lruOrder

instance (s : KvStore) (k : String) : Decidable (s.Tracked k) :=
  inferInstanceAs (Decidable (_ → _))

/-! ## The updates -/

section

variable {s : KvStore} {key k : String} {entry : ValueWithTTL}

theorem mem_insert_iff : k ∈ s.store.insert key entry ↔ k = key ∨ k ∈ s.store := by
  rw [Std.ExtTreeMap.mem_insert, Std.LawfulEqCmp.compare_eq_iff_eq, eq_comm]

theorem mem_erase_iff : k ∈ s.store.erase key ↔ k ≠ key ∧ k ∈ s.store := by
  rw [Std.ExtTreeMap.mem_erase, ne_eq, Std.LawfulEqCmp.compare_eq_iff_eq, eq_comm]

theorem mem_updateLru_iff : k ∈ (s.updateLru key).lruOrder ↔ k = key ∨ k ∈ s.lruOrder := by
  simp only [updateLru, List.mem_append, List.mem_filter, List.mem_singleton, decide_eq_true_eq]
  by_cases hk : k = key <;> simp [hk]

/-- A store in which the key was put in and moved to the recent end. -/
theorem tracked_put {s' : KvStore} (hstore : s'.store = s.store.insert key entry)
    (hlru : s'.lruOrder = (s.updateLru key).lruOrder) : s'.Tracked k ↔ k = key ∨ s.Tracked k := by
  unfold Tracked
  rw [hstore, hlru, mem_insert_iff, mem_updateLru_iff]
  by_cases hk : k = key <;> simp [hk]

theorem tracked_removed {s' : KvStore} (hstore : s'.store = s.store.erase key)
    (hlru : s'.lruOrder = s.lruOrder) : s'.Tracked k ↔ k = key ∨ s.Tracked k := by
  unfold Tracked
  rw [hstore, hlru, mem_erase_iff]
  by_cases hk : k = key <;> simp [hk]

@[simp] theorem emitKeyspaceEvent_lruOrder (now : Nat) (kind : KeyspaceEventKind) :
    (s.emitKeyspaceEvent now kind key).lruOrder = s.lruOrder := by
  unfold emitKeyspaceEvent; split <;> rfl

@[simp] theorem emitKeyspaceEvent_tracked (now : Nat) (kind : KeyspaceEventKind) :
    (s.emitKeyspaceEvent now kind key).Tracked k ↔ s.Tracked k := by
  unfold Tracked
  rw [emitKeyspaceEvent_store, emitKeyspaceEvent_lruOrder]

/-- A key that is not in the store is tracked. -/
theorem tracked_of_absent (h : s.store[key]? = none) : s.Tracked key := fun hin => by
  rw [Std.ExtTreeMap.mem_iff_isSome_getElem?, h] at hin
  cases hin

theorem delete_tracked (now : Nat) (htx : s.inTransaction = false) :
    (s.delete now key).2.Tracked k ↔ k = key ∨ s.Tracked k := by
  unfold delete
  rw [if_neg (by simp [htx])]
  cases hkey : s.store[key]? with
  | none =>
      constructor
      · exact .inr
      · rintro (rfl | h)
        · exact tracked_of_absent hkey
        · exact h
  | some entry =>
      simp only [emitKeyspaceEvent_tracked]
      exact tracked_removed rfl rfl

end

/-! ## Values -/

/-- The key holds a value of this type. -/
def Holds (s : KvStore) (key type : String) : Prop :=
  (s.store[key]?.map fun entry => entry.value.typeName) = some type

instance (s : KvStore) (key type : String) : Decidable (s.Holds key type) :=
  inferInstanceAs (Decidable (_ = _))

theorem popFront_eq_none (items : List String) : popFront items = none ↔ items = [] := by
  cases items <;> simp [popFront]

theorem popBack_eq_none (items : List String) : popBack items = none ↔ items = [] := by
  simp [popBack]

end KvStore

end Daikon
