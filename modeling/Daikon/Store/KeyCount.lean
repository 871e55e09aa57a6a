/-
# Daikon.Store.KeyCount -- when the key count is exact

`stats.total_keys` is taken anew from the store wherever a method creates or evicts a key, and kept where it
changes one in place. DELETE, clean-up and EXEC add or remove keys without taking it. So it is the number of
entries in every state of a run exactly if no DELETE finds its key, no clean-up finds an entry that is due
and every EXEC removes as many keys as it adds (`key_count_exact_iff`).

The condition is again one on the state before each call (`Recounts`). For EXEC it compares two sets, the
keys that the queue brings in and the keys that it takes out, each decided by the last operation on the key;
they need not be empty, only equal in number, for the count is a number. The loop of the eviction takes the
count wherever it removes an entry, so that a run which has lost count may find it again.
-/
import Daikon.Lib.Run
import Daikon.Store.Memory
import Daikon.Store.Text
import Mathlib.Data.Finset.Card

namespace Daikon

open Lib.Run (Always Guarded)
open Lib.KeyedLog (run)

namespace TransactionOp

/-- The key is in the store after the operation. -/
def keeps : TransactionOp → Bool
  | delete _ => false
  | _ => true

/-- The last queued operation on a key. -/
def lastOn (queue : List TransactionOp) (k : String) : Option TransactionOp :=
  (queue.filter fun op => op.cell.1 = k).getLast?

theorem lastOn_cons (op : TransactionOp) (queue : List TransactionOp) (k : String) :
    lastOn (op :: queue) k = if op.cell.1 = k then some ((lastOn queue k).getD op) else lastOn queue k := by
  unfold lastOn
  rw [List.filter_cons]
  by_cases hk : op.cell.1 = k
  · rw [if_pos (decide_eq_true hk), if_pos hk, List.getLast?_cons]
  · rw [if_neg (by simpa using hk), if_neg hk]

/-- Some operation is queued on the key, or none is. -/
theorem lastOn_isSome (queue : List TransactionOp) (k : String) :
    (lastOn queue k).isSome = decide (k ∈ queue.map fun op => op.cell.1) := by
  induction queue with
  | nil => rfl
  | cons op queue ih =>
      rw [lastOn_cons, List.map_cons]
      by_cases hk : op.cell.1 = k
      · simp [hk]
      · rw [if_neg hk, ih]
        simp [Ne.symm hk]

theorem onEntry_isSome (op : TransactionOp) (e : Option ValueWithTTL) :
    (op.cell.2.onEntry e).isSome = op.keeps := by
  cases op <;> cases e <;> rfl

/-- After the queue a key is there as its last operation leaves it. -/
theorem run_isSome (queue : List TransactionOp) : ∀ (m : String → Option ValueWithTTL) (k : String),
    (run (entryUpdates (queue.map cell)) m k).isSome = ((lastOn queue k).map keeps).getD (m k).isSome := by
  induction queue with
  | nil => exact fun m k => rfl
  | cons op queue ih =>
      intro m k
      have hfirst : run (entryUpdates [op.cell]) m
          = Function.update m op.cell.1 (op.cell.2.onEntry (m op.cell.1)) := rfl
      have hrest := ih (run (entryUpdates [op.cell]) m) k
      show (run (entryUpdates (queue.map cell)) (run (entryUpdates [op.cell]) m) k).isSome = _
      rw [hrest, hfirst, lastOn_cons]
      by_cases hk : op.cell.1 = k
      · rw [if_pos hk, Option.map_some, Option.getD_some]
        cases lastOn queue k with
        | none =>
            subst hk
            rw [Option.map_none, Option.getD_none, Function.update_self]
            exact onEntry_isSome op _
        | some last => rfl
      · rw [if_neg hk, Function.update_of_ne (Ne.symm hk)]

end TransactionOp

namespace KvStore

/-- The counter is the number of entries. -/
def KeyCounted (s : KvStore) : Prop := s.stats.totalKeys = s.store.size

/-! ## The keys of a store -/

/-- The keys of the entries. -/
def keySet (s : KvStore) : Finset String := (s.store.toList.map Prod.fst).toFinset

theorem mem_keySet {s : KvStore} {k : String} : k ∈ s.keySet ↔ (s.contents k).isSome := by
  rw [keySet, List.mem_toFinset, Option.isSome_iff_exists]
  constructor
  · intro h
    obtain ⟨⟨k', entry⟩, hp, rfl⟩ := List.mem_map.mp h
    exact ⟨entry, Std.ExtTreeMap.mem_toList_iff_getElem?_eq_some.mp hp⟩
  · rintro ⟨entry, hentry⟩
    exact List.mem_map.mpr ⟨(k, entry), Std.ExtTreeMap.mem_toList_iff_getElem?_eq_some.mpr hentry, rfl⟩

theorem card_keySet (s : KvStore) : s.keySet.card = s.store.size := by
  rw [keySet, List.toFinset_card_of_nodup (Lib.Lookup.nodup_keys_toList s.store), List.length_map,
    Std.ExtTreeMap.length_toList]

/-! ## What keeps the count -/

section

variable {s s' : KvStore} {key : String} {entry : ValueWithTTL}

theorem KeyCounted.of_same (h : s.KeyCounted) (hstore : s'.store = s.store)
    (hkeys : s'.stats.totalKeys = s.stats.totalKeys) : s'.KeyCounted := by
  unfold KeyCounted
  rw [hkeys, hstore]
  exact h

/-- An entry is changed in place. -/
theorem KeyCounted.of_put (h : s.KeyCounted) {old : ValueWithTTL} (hkey : s.store[key]? = some old)
    (hstore : s'.store = s.store.insert key entry) (hkeys : s'.stats.totalKeys = s.stats.totalKeys) :
    s'.KeyCounted := by
  have hmem : s.store.contains key = true := by rw [Std.ExtTreeMap.contains_eq_isSome_getElem?, hkey]; rfl
  unfold KeyCounted
  rw [hkeys, hstore, Std.ExtTreeMap.size_insert, if_pos hmem]
  exact h

theorem insertEntry_keyCounted (s : KvStore) (key : String) (entry : ValueWithTTL) (size : Nat) :
    (s.insertEntry key entry size).KeyCounted := rfl

theorem KeyCounted.emit (h : s.KeyCounted) (now : Nat) (kind : KeyspaceEventKind) (key : String) :
    (s.emitKeyspaceEvent now kind key).KeyCounted := by
  refine h.of_same (emitKeyspaceEvent_store ..) ?_
  rw [emitKeyspaceEvent_stats]

/-- The loop of the eviction takes the count wherever it removes an entry. -/
theorem KeyCounted.enforce (h : s.KeyCounted) (now : Nat) : (s.enforceMemoryLimit now).KeyCounted := by
  refine enforceMemoryLimit_induct (R := fun s t => s.KeyCounted → t.KeyCounted) (fun _ => id)
    (fun _ _ _ hst htu => htu ∘ hst) (fun s lruKey rest _ hs => ?_) s h
  unfold evictHead
  split
  · next entry _ =>
      -- the count is taken from the store without the key
      have herased : ({ s with
          store := s.store.erase lruKey
          stats := { s.stats with
            memoryBytes := s.stats.memoryBytes - estimateValueSize entry.value
            evictions := s.stats.evictions + 1
            totalKeys := (s.store.erase lruKey).size } } : KvStore).KeyCounted := rfl
      exact (herased.emit now .evicted lruKey).of_same rfl rfl
  · exact hs.of_same rfl rfl

/-! ## Writes -/

theorem KeyCounted.setWithExpiry (h : s.KeyCounted) (now : Nat) (key : String) (value : Value)
    (expiresAt : Option Nat) : (s.setWithExpiry now key value expiresAt).2.KeyCounted := by
  by_cases hput : s.config.Valid key value ∧ s.transactionQueue = none
  · rw [setWithExpiry_put hput.1 hput.2]
    refine KeyCounted.emit ?_ now .set key
    split
    · exact (insertEntry_keyCounted s key _ _).enforce now
    · exact insertEntry_keyCounted s key _ _
  · obtain ⟨queue, hqueue⟩ := setWithExpiry_unput now expiresAt hput
    rw [hqueue]
    exact h.of_same rfl rfl

theorem KeyCounted.append (h : s.KeyCounted) (now : Nat) (key value : String) :
    (s.append now key value).2.KeyCounted := by
  cases hkey : s.store[key]? with
  | none =>
      rw [append_absent s key now value hkey]
      exact h.setWithExpiry now key (.str value) none
  | some entry =>
      obtain ⟨old, expiresAt⟩ := entry
      unfold KvStore.append
      rw [hkey]
      cases old with
      | str old => exact h.of_put hkey rfl rfl
      | _ => exact h

theorem KeyCounted.mset (now : Nat) (pairs : List (String × String)) :
    ∀ {s : KvStore}, s.KeyCounted → (s.mset now pairs).2.KeyCounted := by
  induction pairs with
  | nil => exact fun h => h
  | cons pair pairs ih =>
      intro s h
      obtain ⟨key, value⟩ := pair
      rw [mset_cons_snd]
      split
      · exact ih (h.setWithExpiry now key (.str value) none)
      · exact h

theorem KeyCounted.addToInt (h : s.KeyCounted) (key : String) (amount : Int64) :
    (s.addToInt key amount).2.KeyCounted := by
  unfold KvStore.addToInt
  cases hkey : s.store[key]? with
  | none => exact h
  | some entry =>
      obtain ⟨value, expiresAt⟩ := entry
      cases value with
      | int val => exact h.of_put hkey rfl rfl
      | _ => exact h

theorem KeyCounted.expire (h : s.KeyCounted) (now : Nat) (key : String) (ttl : Nat) :
    (s.expire now key ttl).2.KeyCounted := by
  unfold KvStore.expire
  cases hkey : s.store[key]? with
  | none => exact h
  | some entry =>
      simp only
      split
      · exact h
      · have hput : ({ s with
            store := s.store.insert key { entry with expiresAt := checkedAdd now ttl } } :
              KvStore).KeyCounted := h.of_put hkey rfl rfl
        exact hput.emit now .set key

theorem KeyCounted.persist (h : s.KeyCounted) (now : Nat) (key : String) :
    (s.persist now key).2.KeyCounted := by
  unfold KvStore.persist
  cases hkey : s.store[key]? with
  | none => exact h
  | some entry =>
      simp only
      split
      · exact h
      · have hput : ({ s with
            store := s.store.insert key { entry with expiresAt := none } } : KvStore).KeyCounted :=
          h.of_put hkey rfl rfl
        exact hput.emit now .set key

theorem KeyCounted.pushWith (h : s.KeyCounted) (push : List String → List String → List String)
    (key : String) (values : List String) : (s.pushWith push key values).2.KeyCounted := by
  unfold KvStore.pushWith
  cases s.validateKey key with
  | error e => exact h
  | ok _ =>
      cases hkey : s.store[key]? with
      | none => exact insertEntry_keyCounted s key _ _
      | some entry =>
          obtain ⟨value, expiresAt⟩ := entry
          cases value with
          | list items => exact h.of_put hkey rfl rfl
          | _ => exact h

theorem KeyCounted.popWith (h : s.KeyCounted) (pop : List String → Option (String × List String))
    (key : String) : (s.popWith pop key).2.KeyCounted := by
  unfold KvStore.popWith
  cases hkey : s.store[key]? with
  | none => exact h
  | some entry =>
      obtain ⟨value, expiresAt⟩ := entry
      cases value with
      | list items =>
          simp only
          cases pop items with
          | none => exact h
          | some p => exact h.of_put hkey rfl rfl
      | _ => exact h

theorem KeyCounted.hset (h : s.KeyCounted) (key : String) (fields : Fields) :
    (s.hset key fields).2.KeyCounted := by
  unfold KvStore.hset
  cases s.validateKey key with
  | error e => exact h
  | ok _ =>
      cases hkey : s.store[key]? with
      | none => exact insertEntry_keyCounted s key _ _
      | some entry =>
          obtain ⟨value, expiresAt⟩ := entry
          cases value with
          | hash map => exact h.of_put hkey rfl rfl
          | _ => exact h

theorem KeyCounted.hdel (h : s.KeyCounted) (key : String) (fields : List String) :
    (s.hdel key fields).2.KeyCounted := by
  unfold KvStore.hdel
  cases hkey : s.store[key]? with
  | none => exact h
  | some entry =>
      obtain ⟨value, expiresAt⟩ := entry
      cases value with
      | hash map =>
          refine h.of_put hkey rfl ?_
          simp only [updateLru]
          split <;> rfl
      | _ => exact h

theorem KeyCounted.addToField {N : Type} (h : s.KeyCounted) (parse : String → Option N) (zero : N)
    (add : N → N → N) (show_ : N → String) (key field : String) (amount : N) :
    (s.addToField parse zero add show_ key field amount).2.KeyCounted := by
  unfold KvStore.addToField
  cases s.validateKey key with
  | error e => exact h
  | ok _ =>
      cases hkey : s.store[key]? with
      | none => exact insertEntry_keyCounted s key _ _
      | some entry =>
          obtain ⟨value, expiresAt⟩ := entry
          cases value with
          | hash map => exact h.of_put hkey rfl rfl
          | _ => exact h

theorem KeyCounted.pfreserve (h : s.KeyCounted) (key : String) (precision : Nat) :
    (s.pfreserve key precision).2.KeyCounted := by
  rcases pfreserve_cases s key precision with ⟨e, he⟩ | ⟨-, -, heq⟩
  · rw [he]
    exact h
  · rw [heq]
    exact insertEntry_keyCounted s key _ _

theorem KeyCounted.pfadd (h : s.KeyCounted) (rt : Runtime) (key : String) (values : List String) :
    (s.pfadd rt key values).2.KeyCounted := by
  unfold KvStore.pfadd
  cases s.validateKey key with
  | error e => exact h
  | ok _ =>
      simp only
      split
      · exact h
      · cases hkey : s.store[key]? with
        | none => exact insertEntry_keyCounted s key _ _
        | some entry =>
            obtain ⟨value, expiresAt⟩ := entry
            cases value with
            | hyperLogLog hll => exact h.of_put hkey rfl rfl
            | _ => exact h

theorem KeyCounted.pfmerge (h : s.KeyCounted) (destination : String) (sources : List String) :
    (s.pfmerge destination sources).2.KeyCounted := by
  rcases pfmerge_cases s destination sources with ⟨e, he⟩ | ⟨merged, -, -, -, heq⟩
  · rw [he]
    exact h
  · rw [heq]
    simp only
    split
    · next hin =>
        rw [Std.ExtTreeMap.contains_eq_isSome_getElem?] at hin
        obtain ⟨old, hkey⟩ := Option.isSome_iff_exists.mp hin
        exact h.of_put hkey rfl rfl
    · exact insertEntry_keyCounted s destination _ _

/-- What a write but a DELETE does to the keys is counted. -/
theorem KeyCounted.write (h : s.KeyCounted) (rt : Runtime) (now : Nat) {w : Write}
    (hw : ∀ key, w ≠ .delete key) : (s.write rt now w).2.KeyCounted := by
  cases w with
  | set key value => exact h.setWithExpiry now key value none
  | setWithTtl key value ttl => exact h.setWithExpiry now key value _
  | delete key => exact absurd rfl (hw key)
  | append key value => exact h.append now key value
  | getset key value =>
      rw [show (s.write rt now (.getset key value)).2 = _ from getset_snd s key now value]
      exact h.setWithExpiry now key value none
  | mset pairs => exact KeyCounted.mset now pairs h
  | incr key => exact h.addToInt key 1
  | decr key => exact h.addToInt key (-1)
  | incrby key amount => exact h.addToInt key amount
  | expire key ttl => exact h.expire now key ttl
  | persist key => exact h.persist now key
  | pfadd key values => exact h.pfadd rt key values
  | pfmerge destination sources => exact h.pfmerge destination sources
  | lpush key values => exact h.pushWith pushFront key values
  | rpush key values => exact h.pushWith (· ++ ·) key values
  | lpop key => exact h.popWith popFront key
  | rpop key => exact h.popWith popBack key
  | hset key fields => exact h.hset key fields
  | hdel key fields => exact h.hdel key fields
  | hincrby key field amount => exact h.addToField parseI64 0 (· + ·) toString key field amount
  | hincrbyfloat key field amount => exact h.addToField rt.f64Parse 0.0 (· + ·) rt.f64ToString key field amount

end

/-! ## Removals that are not counted -/

section

variable {s s' : KvStore}

/-- Where the counter is left alone, it stays exact if and only if the number of keys does. -/
theorem keyCounted_iff_card (h : s.KeyCounted) (hkeys : s'.stats.totalKeys = s.stats.totalKeys) :
    s'.KeyCounted ↔ s'.keySet.card = s.keySet.card := by
  unfold KeyCounted at h ⊢
  rw [hkeys, h, card_keySet, card_keySet, eq_comm]

theorem delete_keyCounted_iff (h : s.KeyCounted) (now : Nat) (key : String) :
    (s.delete now key).2.KeyCounted ↔ s.inTransaction = true ∨ s.contents key = none := by
  unfold delete
  by_cases htx : s.inTransaction = true
  · rw [if_pos htx]
    refine iff_of_true (h.of_same ?_ ?_) (.inl htx)
    · unfold queueOperation
      split <;> rfl
    · unfold queueOperation
      split <;> rfl
  · rw [if_neg htx]
    cases hkey : s.store[key]? with
    | none => exact iff_of_true h (.inr hkey)
    | some entry =>
        refine iff_of_false (fun hafter => ?_) ?_
        · have hkeys : s.stats.totalKeys = (s.store.erase key).size := by
            have hsame := hafter
            unfold KeyCounted at hsame
            rwa [emitKeyspaceEvent_stats, emitKeyspaceEvent_store] at hsame
          have hin : s.store.contains key = true := by
            rw [Std.ExtTreeMap.contains_eq_isSome_getElem?, hkey]
            rfl
          have hpos : 0 < s.store.size := by
            rw [← card_keySet, Finset.card_pos]
            exact ⟨key, mem_keySet.mpr (by rw [show s.contents key = _ from hkey]; rfl)⟩
          unfold KeyCounted at h
          rw [h, Std.ExtTreeMap.size_erase, if_pos hin] at hkeys
          omega
        · rintro (hin | hnone)
          · exact htx hin
          · rw [show s.contents key = _ from hkey] at hnone
            cases hnone

theorem removeAll_totalKeys (now : Nat) (keys : List String) :
    ∀ s : KvStore, (keys.foldl (removeExpired now) s).stats.totalKeys = s.stats.totalKeys := by
  induction keys with
  | nil => exact fun s => rfl
  | cons key keys ih =>
      intro s
      rw [List.foldl_cons, ih, removeExpired, emitKeyspaceEvent_stats]

theorem cleanup_keyCounted_iff (h : s.KeyCounted) (now : Nat) :
    (s.cleanupExpired now).2.KeyCounted ↔
      ∀ key entry, s.contents key = some entry → entry.due now = false := by
  have hkeys : (s.cleanupExpired now).2.stats.totalKeys = s.stats.totalKeys :=
    removeAll_totalKeys now (s.dueKeys now) s
  have hsub : (s.cleanupExpired now).2.keySet ⊆ s.keySet := by
    intro k hk
    rw [mem_keySet, cleanupExpired_contents] at hk
    rw [mem_keySet]
    by_cases hdue : k ∈ s.dueKeys now
    · simp only [hdue, if_true] at hk
      cases hk
    · simpa only [hdue, if_false] using hk
  rw [keyCounted_iff_card h hkeys]
  constructor
  · intro hcard key entry hentry
    have heq := Finset.eq_of_subset_of_card_le hsub hcard.ge
    have hin : key ∈ (s.cleanupExpired now).2.keySet := by
      rw [heq, mem_keySet, hentry]
      rfl
    rw [mem_keySet, cleanupExpired_contents] at hin
    by_contra hdue
    have hlisted : key ∈ s.dueKeys now := mem_dueKeys_iff.mpr ⟨entry, hentry, by simpa using hdue⟩
    simp only [hlisted, if_true] at hin
    cases hin
  · intro hnone
    congr 1
    refine Finset.Subset.antisymm hsub fun k hk => ?_
    obtain ⟨entry, hentry⟩ := Option.isSome_iff_exists.mp (mem_keySet.mp hk)
    have hout : k ∉ s.dueKeys now := by
      rw [mem_dueKeys_iff]
      rintro ⟨entry', hentry', hdue⟩
      rw [hnone k entry' hentry'] at hdue
      cases hdue
    rw [mem_keySet, cleanupExpired_contents]
    simp only [hout, if_false, hentry, Option.isSome_some]

end

/-! ## EXEC -/

/-- The keys that EXEC brings in: they are missing, and the last operation on them is no DELETE. -/
def added (s : KvStore) (queue : List TransactionOp) : Finset String :=
  (queue.map fun op => op.cell.1).toFinset.filter fun k =>
    (s.contents k).isSome = false ∧ (TransactionOp.lastOn queue k).any TransactionOp.keeps

/-- The keys that EXEC takes out: they are there, and the last operation on them is a DELETE. -/
def removed (s : KvStore) (queue : List TransactionOp) : Finset String :=
  (queue.map fun op => op.cell.1).toFinset.filter fun k =>
    (s.contents k).isSome = true ∧ ¬ (TransactionOp.lastOn queue k).any TransactionOp.keeps

theorem exec_totalKeys (s : KvStore) : s.exec.2.stats.totalKeys = s.stats.totalKeys := by
  have hop : ∀ (s : KvStore) (op : TransactionOp),
      (s.execOp op).2.stats.totalKeys = s.stats.totalKeys := by
    intro s op
    cases op with
    | incr key | decr key | incrBy key amount =>
        simp only [execOp, execAdd]
        split <;> rfl
    | append key value =>
        simp only [execOp]
        split <;> rfl
    | _ => rfl
  have hops : ∀ (ops : List TransactionOp) (s : KvStore),
      (execOps s ops).2.stats.totalKeys = s.stats.totalKeys := by
    intro ops
    induction ops with
    | nil => exact fun s => rfl
    | cons op ops ih => exact fun s => (ih _).trans (hop s op)
  unfold exec
  split
  · rfl
  · exact hops _ _

theorem exec_contents (s : KvStore) : s.exec.2.contents
    = run (entryUpdates ((s.transactionQueue.getD []).map TransactionOp.cell)) s.contents := by
  unfold exec
  cases s.transactionQueue with
  | none => rfl
  | some queue => exact execOps_contents queue _

theorem exec_keySet (s : KvStore) : s.exec.2.keySet
    = (s.keySet \ s.removed (s.transactionQueue.getD [])) ∪ s.added (s.transactionQueue.getD []) := by
  ext k
  rw [mem_keySet, exec_contents, TransactionOp.run_isSome]
  generalize s.transactionQueue.getD [] = queue
  rw [Finset.mem_union, Finset.mem_sdiff, mem_keySet, removed, added, Finset.mem_filter, Finset.mem_filter,
    List.mem_toFinset]
  have hin := TransactionOp.lastOn_isSome queue k
  cases hlast : TransactionOp.lastOn queue k with
  | none =>
      rw [hlast, Option.isSome_none, eq_comm, decide_eq_false_iff_not] at hin
      simp [hin]
  | some last =>
      rw [hlast, Option.isSome_some, eq_comm, decide_eq_true_iff] at hin
      cases hkeeps : last.keeps <;> cases (s.contents k).isSome <;> simp [hin, hkeeps]

theorem exec_keyCounted_iff {s : KvStore} (h : s.KeyCounted) : s.exec.2.KeyCounted ↔
    (s.added (s.transactionQueue.getD [])).card = (s.removed (s.transactionQueue.getD [])).card := by
  rw [keyCounted_iff_card h (exec_totalKeys s), exec_keySet]
  generalize s.transactionQueue.getD [] = queue
  have hsub : s.removed queue ⊆ s.keySet := fun k hk => mem_keySet.mpr (Finset.mem_filter.mp hk).2.1
  have hdisjoint : Disjoint (s.keySet \ s.removed queue) (s.added queue) := by
    rw [Finset.disjoint_left]
    intro k hk hadded
    have hin := mem_keySet.mp (Finset.mem_sdiff.mp hk).1
    rw [(Finset.mem_filter.mp hadded).2.1] at hin
    cases hin
  have hcard := Finset.card_sdiff_add_card_eq_card hsub
  rw [Finset.card_union_of_disjoint hdisjoint]
  omega

/-! ## Runs -/

/-- The call takes the count of what it does to the number of keys, or does nothing to it. -/
def Recounts (s : KvStore) (c : Nat × Method) : Prop :=
  match c.2 with
  | .write (.delete key) => s.inTransaction = true ∨ s.contents key = none
  | .cleanupExpired => ∀ key entry, s.contents key = some entry → entry.due c.1 = false
  | .exec => (s.added (s.transactionQueue.getD [])).card = (s.removed (s.transactionQueue.getD [])).card
  | .resetStats => s.store.size = 0
  | _ => True

/-- The step lemma: from an exact count, a call leaves an exact one if and only if it counts what it does to
the keys. -/
theorem call_keyCounted_iff (rt : Runtime) {s : KvStore} (c : Nat × Method) (h : s.KeyCounted) :
    (s.call rt c).KeyCounted ↔ s.Recounts c := by
  obtain ⟨now, m⟩ := c
  have hqueue : ∀ m : Method, m.Queues → ((s.call rt (now, m)).KeyCounted ↔ True) := by
    intro m hm
    obtain ⟨queue, hcall⟩ := call_queues rt s now hm
    rw [hcall]
    exact iff_of_true (h.of_same rfl rfl) trivial
  cases m with
  | write w =>
      cases w with
      | delete key => exact delete_keyCounted_iff h now key
      | _ => exact iff_of_true (h.write rt now (by simp)) trivial
  | pfreserve key precision => exact iff_of_true (h.pfreserve key precision) trivial
  | cleanupExpired => exact cleanup_keyCounted_iff h now
  | exec => exact exec_keyCounted_iff h
  | multi | discard | queueOperation op => exact hqueue _ trivial
  | resetStats => exact eq_comm
  | drainKeyspaceEvents | setConfig config | setKeyspaceNotificationsEnabled enabled =>
      exact iff_of_true (h.of_same rfl rfl) trivial

/-- Over every run of a store from empty, the count is exact in every state if and only if every DELETE is
queued or finds no key, every clean-up finds nothing that is due, every EXEC brings in as many keys as it
takes out, and the counters are reset on an empty store only. -/
theorem key_count_exact_iff (rt : Runtime) (config : StoreConfig) (cs : List (Nat × Method)) :
    Always (call rt) KeyCounted (withConfig config) cs ↔
      Guarded (call rt) Recounts (withConfig config) cs := by
  apply Lib.Run.always_iff_guarded_of_step (I := KeyCounted)
  · exact fun s c h hc => (call_keyCounted_iff rt c h).mpr hc
  · exact fun s h => h
  · exact fun s c h hc hafter => hc ((call_keyCounted_iff rt c h).mp hafter)
  · exact Std.ExtTreeMap.size_empty.symm

/-- A DELETE takes the only key out, and it stays counted. -/
theorem deleted_key_stays_counted : ¬ Always (call .strings) KeyCounted new
    [(0, .write (.set "k" (.str "v"))), (0, .write (.delete "k"))] := by
  intro h
  have hlast := h.last
  unfold KeyCounted at hlast
  exact absurd hlast (by decide +kernel)

end KvStore

end Daikon
