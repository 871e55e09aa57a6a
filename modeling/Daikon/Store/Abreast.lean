/-
# Daikon.Store.Abreast -- two stores that evict alike

What `enforce_memory_limit` takes out depends on three things: the order of use, the byte counter and the
sizes of the values. Two stores that agree in these, in the values of all keys and in the configuration are
`Abreast`. They may differ in every expiry, in the events that are pending and in the other counters, none of
which eviction looks at. A SET, a DELETE or an APPEND made on both, at any two clocks, evicts the same keys
from both and leaves them abreast, so two histories of the same calls stay abreast however often they evict
(`put`, `delete`, `append`).

This is what makes a live store and the replay of its log comparable while something is evicted: the values
alone would not do, since the next eviction is decided by the order of use and the byte counter that the
calls before have left. `growth_eq` is the other use: how many bytes a list of calls will count on a store is
told by the values there.
-/
import Daikon.Store.Refine

namespace Daikon

open Lib.KeyedLog (cost)

namespace KvStore

/-- The same values in the same order of use, as many bytes counted, and the same configuration. -/
structure Abreast (s t : KvStore) : Prop where
  values : t.values = s.values
  lruOrder : t.lruOrder = s.lruOrder
  memoryBytes : t.stats.memoryBytes = s.stats.memoryBytes
  config : t.config = s.config

/-- Events are nothing that is compared. -/
theorem abreast_emit (s : KvStore) (now : Nat) (kind : KeyspaceEventKind) (key : String) :
    Abreast s (s.emitKeyspaceEvent now kind key) := by
  unfold emitKeyspaceEvent
  split <;> exact ⟨rfl, rfl, rfl, rfl⟩

theorem values_insert (s : KvStore) (key : String) (entry : ValueWithTTL) :
    (fun k => (s.store.insert key entry)[k]?.map ValueWithTTL.value)
      = Function.update s.values key (some entry.value) := by
  funext k
  rw [contents_insert]
  by_cases hk : k = key
  · rw [hk, Function.update_self, Function.update_self, Option.map_some]
  · rw [Function.update_of_ne hk, Function.update_of_ne hk]
    rfl

theorem values_erase (s : KvStore) (key : String) :
    (fun k => (s.store.erase key)[k]?.map ValueWithTTL.value) = Function.update s.values key none := by
  funext k
  rw [contents_erase]
  by_cases hk : k = key
  · rw [hk, Function.update_self, Function.update_self, Option.map_none]
  · rw [Function.update_of_ne hk, Function.update_of_ne hk]
    rfl

section

variable {s t : KvStore}

/-- A key is missing in both, or has the same value in both. -/
theorem Abreast.entry (h : Abreast s t) (key : String) :
    (s.store[key]? = none ∧ t.store[key]? = none) ∨
      ∃ value expiresAt expiresAt', s.store[key]? = some ⟨value, expiresAt⟩ ∧
        t.store[key]? = some ⟨value, expiresAt'⟩ := by
  have hkey := congrFun h.values key
  simp only [KvStore.values, contents] at hkey
  cases hs : s.store[key]? with
  | none =>
      rw [hs, Option.map_none, Option.map_eq_none_iff] at hkey
      exact .inl ⟨rfl, hkey⟩
  | some entry =>
      rw [hs, Option.map_some, Option.map_eq_some_iff] at hkey
      obtain ⟨entry', hentry', hvalue⟩ := hkey
      obtain ⟨value, expiresAt⟩ := entry
      obtain ⟨value', expiresAt'⟩ := entry'
      cases hvalue
      exact .inr ⟨_, _, _, rfl, hentry'⟩

theorem Abreast.symm (h : Abreast s t) : Abreast t s :=
  ⟨h.values.symm, h.lruOrder.symm, h.memoryBytes.symm, h.config.symm⟩

theorem Abreast.trans {u : KvStore} (h : Abreast s t) (h' : Abreast t u) : Abreast s u :=
  ⟨h'.values.trans h.values, h'.lruOrder.trans h.lruOrder, h'.memoryBytes.trans h.memoryBytes,
    h'.config.trans h.config⟩

theorem Abreast.emit (h : Abreast s t) (now now' : Nat) (kind : KeyspaceEventKind) (key : String) :
    Abreast (s.emitKeyspaceEvent now kind key) (t.emitKeyspaceEvent now' kind key) :=
  (abreast_emit s now kind key).symm.trans (h.trans (abreast_emit t now' kind key))

/-! ## Eviction -/

theorem Abreast.evictHead (h : Abreast s t) (now now' : Nat) (lruKey : String) (rest : List String) :
    Abreast (s.evictHead now lruKey rest) (t.evictHead now' lruKey rest) := by
  unfold KvStore.evictHead
  rcases h.entry lruKey with ⟨hs, ht⟩ | ⟨value, expiresAt, expiresAt', hs, ht⟩
  · rw [hs, ht]
    exact ⟨h.values, rfl, h.memoryBytes, h.config⟩
  · rw [hs, ht]
    have herased : Abreast
        { s with
          store := s.store.erase lruKey
          stats := { s.stats with
            memoryBytes := s.stats.memoryBytes - estimateValueSize value
            evictions := s.stats.evictions + 1
            totalKeys := (s.store.erase lruKey).size } }
        { t with
          store := t.store.erase lruKey
          stats := { t.stats with
            memoryBytes := t.stats.memoryBytes - estimateValueSize value
            evictions := t.stats.evictions + 1
            totalKeys := (t.store.erase lruKey).size } } :=
      ⟨(values_erase t lruKey).trans ((congrArg (Function.update · lruKey none) h.values).trans
          (values_erase s lruKey).symm),
        h.lruOrder, congrArg (· - estimateValueSize value) h.memoryBytes, h.config⟩
    have hemitted := herased.emit now now' .evicted lruKey
    exact ⟨hemitted.values, rfl, hemitted.memoryBytes, hemitted.config⟩

theorem Abreast.enforceLoop (now now' : Nat) (keys : List String) : ∀ {s t : KvStore}, Abreast s t →
    Abreast (enforceLoop now keys s) (enforceLoop now' keys t) := by
  induction keys with
  | nil => exact fun h => h
  | cons lruKey rest ih =>
      intro s t h
      unfold KvStore.enforceLoop
      rw [h.memoryBytes, h.config]
      split
      · exact ih (h.evictHead now now' lruKey rest)
      · exact h

theorem Abreast.enforceMemoryLimit (h : Abreast s t) (now now' : Nat) :
    Abreast (s.enforceMemoryLimit now) (t.enforceMemoryLimit now') := by
  unfold KvStore.enforceMemoryLimit
  rw [h.config, h.lruOrder]
  split
  · exact h
  · exact h.enforceLoop now now' s.lruOrder

/-! ## Calls -/

theorem Abreast.insertEntry (h : Abreast s t) (key : String) (value : Value) (expiresAt expiresAt' : Option Nat)
    (size : Nat) :
    Abreast (s.insertEntry key ⟨value, expiresAt⟩ size) (t.insertEntry key ⟨value, expiresAt'⟩ size) where
  values := (values_insert t key ⟨value, expiresAt'⟩).trans
    ((congrArg (Function.update · key (some value)) h.values).trans
      (values_insert s key ⟨value, expiresAt⟩).symm)
  lruOrder := congrArg (fun l : List String => l.filter (· ≠ key) ++ [key]) h.lruOrder
  memoryBytes := congrArg (· + size) h.memoryBytes
  config := h.config

theorem Abreast.rewriteEntry (h : Abreast s t) (key : String) (value : Value)
    (expiresAt expiresAt' : Option Nat) :
    Abreast (s.rewriteEntry key ⟨value, expiresAt⟩) (t.rewriteEntry key ⟨value, expiresAt'⟩) where
  values := (values_insert t key ⟨value, expiresAt'⟩).trans
    ((congrArg (Function.update · key (some value)) h.values).trans
      (values_insert s key ⟨value, expiresAt⟩).symm)
  lruOrder := congrArg (fun l : List String => l.filter (· ≠ key) ++ [key]) h.lruOrder
  memoryBytes := h.memoryBytes
  config := h.config

/-- A SET outside a transaction, whatever evictions follow; a refused one changes neither. -/
theorem Abreast.put (h : Abreast s t) (hs : s.transactionQueue = none) (ht : t.transactionQueue = none)
    (now now' : Nat) (key : String) (value : Value) (expiresAt expiresAt' : Option Nat) :
    Abreast (s.setWithExpiry now key value expiresAt).2 (t.setWithExpiry now' key value expiresAt').2 := by
  by_cases hvalid : s.config.Valid key value
  · have hinserted := h.insertEntry key value expiresAt expiresAt' (estimateValueSize value)
    rw [setWithExpiry_put hvalid hs, setWithExpiry_put (h.config ▸ hvalid) ht, h.config]
    refine Abreast.emit ?_ now now' .set key
    split
    · exact hinserted.enforceMemoryLimit now now'
    · exact hinserted
  · obtain ⟨e, he⟩ := setWithExpiry_refused now expiresAt hvalid
    obtain ⟨e', he'⟩ := setWithExpiry_refused (s := t) now' expiresAt' (h.config.symm ▸ hvalid)
    rw [he, he']
    exact h

/-- A DELETE outside a transaction removes the key, if it is there; nothing else is moved. -/
structure Removed (s s' : KvStore) (key : String) : Prop where
  values : s'.values = Function.update s.values key none
  lruOrder : s'.lruOrder = s.lruOrder
  memoryBytes : s'.stats.memoryBytes = s.stats.memoryBytes
  config : s'.config = s.config

theorem delete_removed (hs : s.transactionQueue = none) (now : Nat) (key : String) :
    Removed s (s.delete now key).2 key := by
  unfold KvStore.delete
  rw [if_neg (by simp [inTransaction, hs])]
  cases hkey : s.store[key]? with
  | none =>
      have hnone : s.values key = none := by simp [values, contents, hkey]
      exact ⟨by rw [← hnone, Function.update_eq_self], rfl, rfl, rfl⟩
  | some entry =>
      have hemit := abreast_emit { s with
        store := s.store.erase key
        stats := { s.stats with totalDeletes := s.stats.totalDeletes + 1 } } now .delete key
      exact ⟨hemit.values.trans (values_erase s key), hemit.lruOrder, hemit.memoryBytes, hemit.config⟩

theorem Abreast.removed {s' t' : KvStore} {key : String} (h : Abreast s t) (hs : Removed s s' key)
    (ht : Removed t t' key) : Abreast s' t' where
  values := by rw [hs.values, ht.values, h.values]
  lruOrder := by rw [hs.lruOrder, ht.lruOrder, h.lruOrder]
  memoryBytes := by rw [hs.memoryBytes, ht.memoryBytes, h.memoryBytes]
  config := by rw [hs.config, ht.config, h.config]

theorem Abreast.delete (h : Abreast s t) (hs : s.transactionQueue = none) (ht : t.transactionQueue = none)
    (now now' : Nat) (key : String) : Abreast (s.delete now key).2 (t.delete now' key).2 :=
  h.removed (delete_removed hs now key) (delete_removed ht now' key)

/-- An APPEND outside a transaction: to a text in place, to a missing key as a SET. -/
theorem Abreast.append (h : Abreast s t) (hs : s.transactionQueue = none) (ht : t.transactionQueue = none)
    (now now' : Nat) (key value : String) : Abreast (s.append now key value).2 (t.append now' key value).2 := by
  rcases h.entry key with ⟨hnone, hnone'⟩ | ⟨old, expiresAt, expiresAt', hsome, hsome'⟩
  · rw [append_absent s key now value hnone, append_absent t key now' value hnone']
    exact h.put hs ht now now' key (.str value) none none
  · unfold KvStore.append
    rw [hsome, hsome']
    cases old with
    | str old => exact h.rewriteEntry key _ expiresAt expiresAt'
    | _ => exact h

end

/-! ## The bytes that calls will count -/

/-- What a cell operation counts, and the value it leaves, are told by the value there. -/
theorem cost_values (cells : List (String × CellOp)) : ∀ m m' : String → Option ValueWithTTL,
    (∀ k, (m' k).map ValueWithTTL.value = (m k).map ValueWithTTL.value) →
      cost (entryUpdates cells) m' = cost (entryUpdates cells) m := by
  induction cells with
  | nil => exact fun _ _ _ => rfl
  | cons cell cells ih =>
      intro m m' hvalues
      obtain ⟨key, op⟩ := cell
      have hbytes : op.bytes (m' key) = op.bytes (m key) := by
        have hkey := hvalues key
        cases hm : m key with
        | none =>
            rw [hm, Option.map_none, Option.map_eq_none_iff] at hkey
            rw [hkey]
        | some entry =>
            rw [hm, Option.map_some, Option.map_eq_some_iff] at hkey
            obtain ⟨entry', hentry', -⟩ := hkey
            rw [hentry']
            cases op with
            | edit f first => cases first <;> rfl
            | _ => rfl
      have hnext := ih (Function.update m key (op.onEntry (m key))) (Function.update m' key (op.onEntry (m' key)))
        fun k => by
          by_cases hk : k = key
          · subst hk
            simp only [Function.update_self, CellOp.onEntry_value, hvalues k]
          · simp only [Function.update_of_ne hk, hvalues k]
      exact congrArg₂ (· + ·) hbytes hnext

theorem growth_eq {s t : KvStore} (h : t.values = s.values) (cells : List (String × CellOp)) :
    t.growth cells = s.growth cells :=
  cost_values cells s.contents t.contents fun k => congrFun h k

theorem Abreast.fits {s t : KvStore} (h : Abreast s t) {cells : List (String × CellOp)}
    (hfits : s.Fits (s.growth cells)) : t.Fits (t.growth cells) := by
  unfold Fits
  rw [h.config, h.memoryBytes, growth_eq h.values]
  exact hfits

end KvStore

end Daikon
