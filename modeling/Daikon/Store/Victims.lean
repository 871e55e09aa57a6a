/-
# Daikon.Store.Victims -- which keys the eviction loop takes

The loop takes keys from the head of the recency list while the counter is over the cap, and each key
gives its bytes back. So a key of the list goes if and only if the counter is over the cap even without
the bytes that stand before the key (`enforceLoop_contents`), and a put takes the keys for which that
holds once the new value is counted (`put_contents`).

For a run of the loop the order of the list matters, and the statement keeps it: a key goes if the bytes of
the keys before it are not enough. What the keys after it hold makes no difference, and neither do names
without an entry, whose bytes are none. `PutTakes` is the same for the loop behind a put, with the key of
the put at the end of the list and its new value counted, and this is the form in which calls with and
without expired entries are compared.
-/
import Daikon.Store.Memory

namespace Daikon

open Lib (Weight.ahead)

/-- Eviction is on, with a cap. -/
structure StoreConfig.Capped (cfg : StoreConfig) : Prop where
  cap : 0 < cfg.maxMemoryBytes
  lru : cfg.lruEvictionEnabled = true

/-- The bytes stored under the keys that stand before this one in the list. -/
def bytesAhead (m : String → Option ValueWithTTL) (order : List String) (key : String) : Nat :=
  Weight.ahead entrySize m order key

namespace KvStore

theorem enforceMemoryLimit_capped {s : KvStore} {now : Nat} (h : 0 < s.config.maxMemoryBytes) :
    s.enforceMemoryLimit now = enforceLoop now s.lruOrder s := if_neg (by omega)

/-- A turn empties one cell and gives its bytes back, if it had any. -/
theorem evictHead_effect (s : KvStore) (now : Nat) (lruKey : String) (rest : List String) :
    (s.evictHead now lruKey rest).contents = Function.update s.contents lruKey none ∧
      (s.evictHead now lruKey rest).stats.memoryBytes
        = s.stats.memoryBytes - cellSize (s.contents lruKey) := by
  unfold evictHead
  cases hkey : s.store[lruKey]? with
  | none =>
      have hcell : s.contents lruKey = none := hkey
      rw [hcell, ← hcell, Function.update_eq_self, hcell]
      exact ⟨rfl, rfl⟩
  | some entry =>
      have hcell : s.contents lruKey = some entry := hkey
      rw [hcell]
      refine ⟨?_, ?_⟩
      · rw [show ∀ t : KvStore, ({ t with lruOrder := rest } : KvStore).contents = t.contents from
          fun _ => rfl, emitKeyspaceEvent_contents]
        exact funext fun k => contents_erase s lruKey k
      · simp only [emitKeyspaceEvent_stats]
        rfl

/-- A key goes if and only if the bytes before it do not bring the counter under the cap. -/
theorem enforceLoop_contents (now : Nat) (keys : List String) : ∀ (s : KvStore) (k : String),
    (enforceLoop now keys s).contents k
      = if k ∈ keys ∧ s.config.maxMemoryBytes + bytesAhead s.contents keys k < s.stats.memoryBytes
        then none else s.contents k := by
  induction keys with
  | nil => intro s k; rw [enforceLoop, if_neg (by simp)]
  | cons lruKey rest ih =>
      intro s k
      rw [enforceLoop]
      by_cases hover : s.stats.memoryBytes > s.config.maxMemoryBytes
      · obtain ⟨hcontents, hmem⟩ := evictHead_effect s now lruKey rest
        rw [if_pos hover, ih, hcontents, hmem, evictHead_config]
        by_cases hk : k = lruKey
        · subst hk
          have hzero : bytesAhead s.contents (k :: rest) k = 0 := Lib.Weight.ahead_cons_self ..
          rw [Function.update_self, ite_self, if_pos ⟨List.mem_cons_self, by omega⟩]
        · have hahead : bytesAhead s.contents (lruKey :: rest) k
              = cellSize (s.contents lruKey)
                + bytesAhead (Function.update s.contents lruKey none) rest k :=
            Lib.Weight.ahead_cons_of_ne entrySize s.contents hk rest
          rw [Function.update_of_ne hk, hahead]
          apply if_congr _ rfl rfl
          rw [List.mem_cons]
          constructor
          · exact fun h => ⟨.inr h.1, by omega⟩
          · exact fun h => ⟨h.1.resolve_left hk, by omega⟩
      · rw [if_neg hover, if_neg fun h => hover (by omega)]

/-- Before the last key of a list that has every stored key stands all that is stored but its own entry. -/
theorem bytesAhead_last (key : String) (keys : List String) : ∀ s : KvStore,
    (∀ k ∈ s.store, k ∈ keys ++ [key]) → key ∉ keys →
      bytesAhead s.contents (keys ++ [key]) key + cellSize (s.contents key) = s.valueBytes := by
  induction keys with
  | nil =>
      intro s hall _
      have hempty : s.store.erase key = ∅ := by
        apply Std.ExtTreeMap.ext_getElem?
        intro k
        rw [contents_erase, Std.ExtTreeMap.getElem?_empty]
        by_cases hk : k = key
        · rw [hk, Function.update_self]
        · rw [Function.update_of_ne hk]
          refine Std.ExtTreeMap.getElem?_eq_none fun hin => hk ?_
          simpa using hall k hin
      have hbytes := valueBytes_erase s key
      rw [hempty, Lib.Weight.total_empty] at hbytes
      have hzero : bytesAhead s.contents [key] key = 0 := Lib.Weight.ahead_cons_self ..
      show bytesAhead s.contents [key] key + _ = _
      omega
  | cons lruKey rest ih =>
      intro s hall hout
      have hne : key ≠ lruKey := fun h => hout (h ▸ List.mem_cons_self)
      -- the store after the first key is taken out
      have herase : ({ s with store := s.store.erase lruKey } : KvStore).contents
          = Function.update s.contents lruKey none := funext fun k => contents_erase s lruKey k
      have hrest := ih { s with store := s.store.erase lruKey }
        (fun k hk => by
          have hmem := Std.ExtTreeMap.mem_erase.mp hk
          have hk' : k ≠ lruKey := fun heq => hmem.1 (heq ▸ Std.ReflCmp.compare_self)
          exact (List.mem_cons.mp (hall k hmem.2)).resolve_left hk')
        (fun h => hout (List.mem_cons_of_mem _ h))
      rw [herase, Function.update_of_ne hne] at hrest
      have hbytes := valueBytes_erase s lruKey
      have hahead : bytesAhead s.contents (lruKey :: rest ++ [key]) key
          = cellSize (s.contents lruKey)
            + bytesAhead (Function.update s.contents lruKey none) (rest ++ [key]) key :=
        Lib.Weight.ahead_cons_of_ne entrySize s.contents hne (rest ++ [key])
      simp only [valueBytes, List.cons_append] at hrest hbytes hahead ⊢
      omega

/-! ## Puts -/

/-- The recency list after the key is moved to its end. -/
def recencyWith (s : KvStore) (key : String) : List String := s.lruOrder.filter (· ≠ key) ++ [key]

/-- The put of this value takes the key: the counter, with the value, is over the cap even without the
bytes before the key. -/
def PutTakes (s : KvStore) (key : String) (value : Value) (k : String) : Prop :=
  s.config.Capped ∧ k ∈ s.recencyWith key ∧
    s.config.maxMemoryBytes + bytesAhead s.contents (s.recencyWith key) k
      < s.stats.memoryBytes + estimateValueSize value

theorem not_mem_before {l : List String} {key k : String} (h : k ∈ l.filter (· ≠ key) ++ [key]) :
    key ∉ (l.filter (· ≠ key) ++ [key]).takeWhile (· ≠ k) := by
  intro hin
  by_cases hk : k = key
  · have := List.mem_takeWhile_imp hin
    simp [hk] at this
  · have hmem : k ∈ l.filter (· ≠ key) := by simpa [hk] using h
    rw [List.takeWhile_append, if_neg] at hin
    · have := List.mem_filter.mp (List.takeWhile_subset _ hin)
      simp at this
    · intro hlength
      have hall := List.takeWhile_prefix (p := (· ≠ k)) |>.eq_of_length hlength
      rw [← hall] at hmem
      have := List.mem_takeWhile_imp hmem
      simp at this

open Classical in
/-- What a put leaves: the value under its key, without the keys that the loop takes. -/
theorem put_contents {s : KvStore} {now : Nat} {key : String} {value : Value}
    {expiresAt : Option Nat} (hvalid : s.config.Valid key value) (htx : s.transactionQueue = none)
    (k : String) : (s.setWithExpiry now key value expiresAt).2.contents k
      = if s.PutTakes key value k then none
        else Function.update s.contents key (some ⟨value, expiresAt⟩) k := by
  have hput : (s.insertEntry key ⟨value, expiresAt⟩ (estimateValueSize value)).contents
      = Function.update s.contents key (some ⟨value, expiresAt⟩) :=
    funext fun k => contents_insert s key _ k
  have hahead : k ∈ s.recencyWith key →
      bytesAhead (Function.update s.contents key (some ⟨value, expiresAt⟩)) (s.recencyWith key) k
        = bytesAhead s.contents (s.recencyWith key) k := fun hk =>
    Lib.Weight.ahead_congr entrySize fun j hj => by
      have hne : j ≠ key := fun heq => not_mem_before hk (heq ▸ hj)
      exact Function.update_of_ne hne _ _
  rw [setWithExpiry_put hvalid htx, emitKeyspaceEvent_contents]
  by_cases hcapped : s.config.maxMemoryBytes > 0 ∧ s.config.lruEvictionEnabled = true
  · rw [if_pos hcapped, enforceMemoryLimit_capped (by exact hcapped.1), enforceLoop_contents, hput]
    apply if_congr _ rfl rfl
    constructor
    · rintro ⟨hk, hover⟩
      exact ⟨⟨hcapped.1, hcapped.2⟩, hk, hahead hk ▸ hover⟩
    · rintro ⟨-, hk, hover⟩
      exact ⟨hk, (hahead hk).symm ▸ hover⟩
  · rw [if_neg hcapped, hput, if_neg fun h => hcapped ⟨h.1.cap, h.1.lru⟩]

end KvStore

end Daikon
