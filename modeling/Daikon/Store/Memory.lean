/-
# Daikon.Store.Memory -- the byte counter and the bytes that are stored

`stats.memory_bytes` is kept by each method on its own. `valueBytes` is what it stands for, the sizes of
the stored values, and `drift` is by how much the counter is ahead. Eviction takes entries out of both
alike, as long as the counter is not behind (`Drained`). So what a call does to the drift can be told
from its cell operations, the bytes they count and the bytes by which they make an entry grow.

The relation between the counter and the bytes is stated as a difference of integers (`drift`), which may be
negative: a store with values that have grown in place counts less than it holds. While it is negative an
eviction may give back more than was counted, and the counter stays at zero, so that the drift is not kept
(`Drained.drift` asks that the counter is not behind).

For each kind of call there is one lemma that says how far it moves the drift, in terms of the entry it
finds: what is overwritten, what is removed, what a change in place makes of the size (`CellOp.overcount`).
-/
import Daikon.Lib.Weight
import Daikon.Store.Evict
import Daikon.Store.Methods
import Daikon.Store.Queue
import Daikon.Store.Sketch

namespace Daikon

open Lib (Weight.cell Weight.total)
open Lib.KeyedLog (run)

/-- The accounted size of an entry. -/
def entrySize (entry : ValueWithTTL) : Nat := estimateValueSize entry.value

/-- The size of what is at a key. -/
def cellSize (e : Option ValueWithTTL) : Nat := Weight.cell entrySize e

@[simp] theorem cellSize_none : cellSize none = 0 := rfl

@[simp] theorem cellSize_some (value : Value) (expiresAt : Option Nat) :
    cellSize (some ⟨value, expiresAt⟩) = estimateValueSize value := rfl

namespace KvStore

/-- The value bytes of the memory profile: the sizes of all stored values. -/
def valueBytes (s : KvStore) : Nat := Weight.total entrySize s.store

/-- By how much the counter is ahead of the stored bytes. -/
def drift (s : KvStore) : Int := s.stats.memoryBytes - s.valueBytes

theorem valueBytes_erase (s : KvStore) (key : String) :
    Weight.total entrySize (s.store.erase key) + cellSize (s.contents key) = s.valueBytes :=
  Lib.Weight.total_erase entrySize s.store key

/-- A change at one key changes the bytes by what it makes of that entry. -/
theorem valueBytes_update {s s' : KvStore} {key : String} {e : Option ValueWithTTL}
    (h : s'.contents = Function.update s.contents key e) :
    s'.valueBytes + cellSize (s.contents key) = s.valueBytes + cellSize e := by
  cases e with
  | none =>
      have hstore : s'.store = s.store.erase key :=
        Std.ExtTreeMap.ext_getElem? fun {k} => (congrFun h k).trans (contents_erase s key k).symm
      rw [valueBytes, hstore]
      exact valueBytes_erase s key
  | some entry =>
      have hstore : s'.store = s.store.insert key entry :=
        Std.ExtTreeMap.ext_getElem? fun {k} =>
          (congrFun h k).trans (contents_insert s key entry k).symm
      rw [valueBytes, hstore]
      exact Lib.Weight.total_insert entrySize s.store key entry

/-! ## Eviction -/

/-- Some entries have gone, and the counter has given their bytes back, down to zero. -/
structure Drained (s s' : KvStore) : Prop where
  bytes : s'.valueBytes ≤ s.valueBytes
  memory : s'.stats.memoryBytes = s.stats.memoryBytes - (s.valueBytes - s'.valueBytes)

theorem Drained.refl (s : KvStore) : Drained s s where
  bytes := Nat.le_refl _
  memory := by omega

theorem Drained.trans {s s' s'' : KvStore} (h : Drained s s') (h' : Drained s' s'') :
    Drained s s'' where
  bytes := h'.bytes.trans h.bytes
  memory := by
    have hb := h.bytes
    have hb' := h'.bytes
    rw [h'.memory, h.memory]
    omega

theorem evictHead_drained (s : KvStore) (now : Nat) (lruKey : String) (rest : List String) :
    Drained s (s.evictHead now lruKey rest) := by
  unfold evictHead
  cases hkey : s.store[lruKey]? with
  | none => exact ⟨Nat.le_refl _, (Drained.refl s).memory⟩
  | some entry =>
      have herase := valueBytes_erase s lruKey
      rw [show s.contents lruKey = some entry from hkey] at herase
      have hsize : cellSize (some entry) = estimateValueSize entry.value := rfl
      constructor
      · simp only [valueBytes, emitKeyspaceEvent_store] at herase ⊢
        omega
      · simp only [valueBytes, emitKeyspaceEvent_store, emitKeyspaceEvent_stats] at herase ⊢
        omega

theorem enforceMemoryLimit_drained (s : KvStore) (now : Nat) : Drained s (s.enforceMemoryLimit now) :=
  enforceMemoryLimit_induct Drained.refl (fun _ _ _ => Drained.trans)
    (fun s lruKey rest _ => evictHead_drained s now lruKey rest) s

/-- While the counter is not behind, it stays as far ahead. -/
theorem Drained.drift {s s' : KvStore} (h : Drained s s') (hs : 0 ≤ s.drift) :
    s'.drift = s.drift := by
  have hb := h.bytes
  have hm := h.memory
  unfold KvStore.drift at hs ⊢
  omega

end KvStore

/-! ## Calls -/

namespace CellOp

/-- The bytes the operation counts beyond those by which the entry grows. -/
def overcount (op : CellOp) (e : Option ValueWithTTL) : Int :=
  op.bytes e + cellSize e - cellSize (op.onEntry e)

/-- Nothing with bytes is overwritten or removed, and a change in place keeps the size. -/
def Exact : CellOp → Option ValueWithTTL → Prop
  | assign _ _, e | remove, e => cellSize e = 0
  | edit f _, some entry => estimateValueSize (f entry.value) = estimateValueSize entry.value
  | edit _ _, none | retime _, _ => True

theorem overcount_eq_zero_iff (op : CellOp) (e : Option ValueWithTTL) :
    op.overcount e = 0 ↔ op.Exact e := by
  unfold overcount
  cases op with
  | assign value expiresAt => simp only [bytes, onEntry, cellSize_some, Exact]; omega
  | remove => simp only [bytes, onEntry, cellSize_none, Exact]; omega
  | edit f first =>
      cases e with
      | none =>
          cases first with
          | none => simp [bytes, onEntry, Exact]
          | some first => simp [bytes, onEntry, Exact]
      | some entry =>
          obtain ⟨value, expiresAt⟩ := entry
          cases first <;> simp only [bytes, onEntry, cellSize_some, Exact] <;> omega
  | retime g =>
      cases e with
      | none => simp [bytes, onEntry, Exact]
      | some entry =>
          obtain ⟨value, expiresAt⟩ := entry
          simp [bytes, onEntry, Exact]

/-- A sketch keeps its size. -/
theorem addValues_exact (rt : Runtime) (cfg : StoreConfig) (key : String) (values : List String)
    (e : Option ValueWithTTL) : (addValues rt cfg key values).Exact e := by
  have hnop : nop.Exact e := by cases e <;> simp [nop, Exact]
  unfold addValues
  split
  · split
    · exact hnop
    · cases e with
      | none => trivial
      | some entry =>
          obtain ⟨value, expiresAt⟩ := entry
          cases value with
          | hyperLogLog hll => exact HyperLogLog.addAll_registers_length rt.hashValue values hll
          | _ => rfl
  · exact hnop

end CellOp

namespace KvStore

theorem Moves.drift {s s' : KvStore} {key : String} {op : CellOp} (h : Moves s s' [(key, op)]) :
    s'.drift = s.drift + op.overcount (s.contents key) := by
  have hcontents : s'.contents = Function.update s.contents key (op.onEntry (s.contents key)) :=
    h.contents
  have hbytes := valueBytes_update hcontents
  have hmem := h.memory
  rw [growth_one] at hmem
  unfold KvStore.drift CellOp.overcount
  omega

@[simp] theorem emitKeyspaceEvent_drift (s : KvStore) (now : Nat) (kind : KeyspaceEventKind)
    (key : String) : (s.emitKeyspaceEvent now kind key).drift = s.drift := by
  simp only [drift, valueBytes, emitKeyspaceEvent_store, emitKeyspaceEvent_stats]

theorem insertEntry_moves (s : KvStore) (key : String) (value : Value) (expiresAt : Option Nat) :
    Moves s (s.insertEntry key ⟨value, expiresAt⟩ (estimateValueSize value))
      [(key, .assign value expiresAt)] :=
  Moves.one (fun k => contents_insert s key _ k) rfl rfl rfl

/-- The put overcounts what it overwrites, and the eviction behind it keeps that. -/
theorem setWithExpiry_drift {s : KvStore} (hs : 0 ≤ s.drift) (now : Nat) (key : String)
    (value : Value) (expiresAt : Option Nat) :
    (s.setWithExpiry now key value expiresAt).2.drift
      = s.drift
        + (CellOp.assignIf s.config s.inTransaction key value expiresAt).overcount (s.contents key) := by
  by_cases hput : s.config.Valid key value ∧ s.transactionQueue = none
  · obtain ⟨hvalid, htx⟩ := hput
    have hop : CellOp.assignIf s.config s.inTransaction key value expiresAt
        = .assign value expiresAt := if_pos ⟨hvalid, by simp [inTransaction, htx]⟩
    have hinsert := (insertEntry_moves s key value expiresAt).drift
    have hahead : 0 ≤ (s.insertEntry key ⟨value, expiresAt⟩ (estimateValueSize value)).drift := by
      rw [hinsert]
      show 0 ≤ s.drift + (estimateValueSize value + cellSize (s.contents key)
        - cellSize (some ⟨value, expiresAt⟩))
      rw [cellSize_some]
      omega
    rw [hop, setWithExpiry_put hvalid htx, ← hinsert, emitKeyspaceEvent_drift]
    split
    · exact (enforceMemoryLimit_drained _ now).drift hahead
    · rfl
  · -- refused or queued: nothing happens at the key, whatever the room
    have hop : CellOp.assignIf s.config s.inTransaction key value expiresAt = .nop :=
      if_neg fun h => hput ⟨h.1, by simpa [inTransaction] using h.2⟩
    have hsame : (s.setWithExpiry now key value expiresAt).2.drift = s.drift := by
      obtain ⟨queue, hqueue⟩ := setWithExpiry_unput now expiresAt hput
      rw [hqueue]
      rfl
    rw [hop, hsame, CellOp.overcount, CellOp.bytes_nop, CellOp.onEntry_nop]
    omega

theorem append_drift {s : KvStore} (hs : 0 ≤ s.drift) (now : Nat) (key value : String) :
    (s.append now key value).2.drift
      = s.drift + (CellOp.appendStr s.config s.inTransaction key value).overcount (s.contents key) := by
  cases hkey : s.store[key]? with
  | some entry => exact (append_present s key now value hkey).drift
  | none =>
      have hcell : s.contents key = none := hkey
      have hsame : (CellOp.appendStr s.config s.inTransaction key value).overcount none
          = (CellOp.assignIf s.config s.inTransaction key (.str value) none).overcount none := by
        unfold CellOp.appendStr CellOp.assignIf
        split <;> rfl
      rw [append_absent s key now value hkey, hcell, hsame, ← hcell]
      exact setWithExpiry_drift hs now key (.str value) none

/-- The pairs of an MSET fall on free keys, each at its turn. -/
def MsetExact (now : Nat) : List (String × String) → KvStore → Prop
  | [], _ => True
  | (key, value) :: pairs, s => s.config.Valid key (.str value) →
      (CellOp.assignIf s.config s.inTransaction key (.str value) none).Exact (s.contents key) ∧
        MsetExact now pairs (s.set now key (.str value)).2

theorem assignIf_overcount_nonneg (cfg : StoreConfig) (inTx : Bool) (key : String) (value : Value)
    (expiresAt : Option Nat) (e : Option ValueWithTTL) :
    0 ≤ (CellOp.assignIf cfg inTx key value expiresAt).overcount e := by
  unfold CellOp.assignIf
  split
  · show 0 ≤ (estimateValueSize value + cellSize e - cellSize (some ⟨value, expiresAt⟩) : Int)
    rw [cellSize_some]
    omega
  · rw [CellOp.overcount, CellOp.bytes_nop, CellOp.onEntry_nop]
    omega

/-- No pair makes up for what another one overcounts. -/
theorem mset_drift (now : Nat) (pairs : List (String × String)) :
    ∀ {s : KvStore}, 0 ≤ s.drift → s.drift ≤ (s.mset now pairs).2.drift ∧
      ((s.mset now pairs).2.drift = s.drift ↔ MsetExact now pairs s) := by
  induction pairs with
  | nil => exact fun _ => ⟨le_refl _, iff_of_true rfl trivial⟩
  | cons pair pairs ih =>
      intro s hs
      obtain ⟨key, value⟩ := pair
      rw [mset_cons_snd, MsetExact]
      by_cases hvalid : s.config.Valid key (.str value)
      · have hset : (s.set now key (.str value)).2.drift = _ :=
          setWithExpiry_drift hs now key (.str value) none
        have hnonneg := assignIf_overcount_nonneg s.config s.inTransaction key (.str value) none
          (s.contents key)
        have hzero := CellOp.overcount_eq_zero_iff
          (CellOp.assignIf s.config s.inTransaction key (.str value) none) (s.contents key)
        obtain ⟨hle, hiff⟩ := ih (s := (s.set now key (.str value)).2) (by omega)
        rw [if_pos hvalid]
        refine ⟨by omega, fun h => fun _ => ⟨hzero.mp (by omega), hiff.mp (by omega)⟩, fun h => ?_⟩
        obtain ⟨hexact, hrest⟩ := h hvalid
        have := hzero.mpr hexact
        have := hiff.mpr hrest
        omega
      · rw [if_neg hvalid]
        exact ⟨le_refl _, iff_of_true rfl fun h => absurd h hvalid⟩

theorem pfmerge_drift (s : KvStore) (destination : String) (sources : List String) :
    (s.pfmerge destination sources).2.drift = s.drift := by
  rcases pfmerge_cases s destination sources with ⟨e, he⟩ | ⟨merged, hvalid, hsources, hmerged, heq⟩
  · rw [he]
  · have hlength := mergedSketch_registers_length hmerged
    have hsize : cellSize (some ⟨.hyperLogLog merged, none⟩) = merged.registers.length := rfl
    have hbytes := valueBytes_update (pfmerge_contents hvalid hsources hmerged)
    have hmem : (s.pfmerge destination sources).2.stats.memoryBytes = s.stats.memoryBytes
        + if s.store.contains destination then 0 else merged.registers.length := by
      rw [heq]
      simp only
      split <;> rfl
    rw [contains_eq] at hmem
    unfold drift
    cases hcell : s.contents destination with
    | none =>
        rw [hcell] at hbytes hmem
        simp only [Option.isSome_none, Bool.false_eq_true, if_false, cellSize_none] at hbytes hmem
        omega
    | some entry =>
        have hold : cellSize (some entry) = merged.registers.length := by
          rw [hcell] at hlength
          exact hlength.symm
        rw [hcell] at hbytes hmem
        simp only [Option.isSome_some, if_true] at hmem
        omega

theorem pfreserve_drift (s : KvStore) (key : String) (precision : Nat) :
    (s.pfreserve key precision).2.drift = s.drift := by
  rcases pfreserve_cases s key precision with ⟨e, he⟩ | ⟨-, hcell, heq⟩
  · rw [he]
  · have hdrift := (insertEntry_moves s key (.hyperLogLog (HyperLogLog.new precision)) none).drift
    have hzero : (CellOp.assign (.hyperLogLog (HyperLogLog.new precision)) none).overcount none = 0 :=
      (CellOp.overcount_eq_zero_iff _ _).mpr rfl
    rw [hcell, hzero, add_zero] at hdrift
    rw [heq]
    exact hdrift

/-! ## Clean-up and EXEC -/

end KvStore

/-- Clean-up takes the entry away: its expiry has come. -/
def ValueWithTTL.due (entry : ValueWithTTL) (now : Nat) : Bool :=
  match entry.expiresAt with
  | some exp => now ≥ exp
  | none => false

namespace KvStore

/-- One turn of the loop of `cleanup_expired`. -/
def removeExpired (now : Nat) (s : KvStore) (key : String) : KvStore :=
  { s with store := s.store.erase key }.emitKeyspaceEvent now .expired key

/-- The keys that `cleanup_expired` collects. -/
def dueKeys (s : KvStore) (now : Nat) : List String :=
  (s.store.toList.filter fun p => p.2.due now).map Prod.fst

theorem cleanupExpired_eq (s : KvStore) (now : Nat) : s.cleanupExpired now
    = ((s.dueKeys now).length, { (s.dueKeys now).foldl (removeExpired now) s with
        stats := { ((s.dueKeys now).foldl (removeExpired now) s).stats with
          expiredKeys := ((s.dueKeys now).foldl (removeExpired now) s).stats.expiredKeys
            + (s.dueKeys now).length } }) := rfl

/-- The entries that a test selects, as `keys`, `iter` and the clean-up do. -/
theorem mem_selected_iff {s : KvStore} {p : String × ValueWithTTL → Bool} {k : String}
    {entry : ValueWithTTL} : (k, entry) ∈ s.store.toList.filter p ↔
      s.contents k = some entry ∧ p (k, entry) = true := by
  rw [List.mem_filter, Std.ExtTreeMap.mem_toList_iff_getElem?_eq_some]
  rfl

theorem mem_selectedKeys_iff {s : KvStore} {p : String × ValueWithTTL → Bool} {k : String} :
    k ∈ (s.store.toList.filter p).map Prod.fst ↔
      ∃ entry, s.contents k = some entry ∧ p (k, entry) = true := by
  constructor
  · intro h
    obtain ⟨⟨k', entry⟩, hp, rfl⟩ := List.mem_map.mp h
    exact ⟨entry, mem_selected_iff.mp hp⟩
  · rintro ⟨entry, hentry⟩
    exact List.mem_map.mpr ⟨(k, entry), mem_selected_iff.mpr hentry, rfl⟩

theorem mem_dueKeys_iff {s : KvStore} {now : Nat} {k : String} :
    k ∈ s.dueKeys now ↔ ∃ entry, s.contents k = some entry ∧ entry.due now :=
  mem_selectedKeys_iff

theorem removeExpired_contents (now : Nat) (s : KvStore) (key : String) :
    (s.removeExpired now key).contents = Function.update s.contents key none := by
  funext k
  simp only [removeExpired, contents, emitKeyspaceEvent_store]
  exact contents_erase s key k

/-- Clean-up takes out what is due and leaves the rest. -/
theorem removeAll_contents (now : Nat) (keys : List String) :
    ∀ s : KvStore, (keys.foldl (removeExpired now) s).contents
      = fun k => if k ∈ keys then none else s.contents k := by
  induction keys with
  | nil => intro s; simp
  | cons key keys ih =>
      intro s
      rw [List.foldl_cons, ih, removeExpired_contents]
      funext k
      by_cases hk : k = key
      · simp [hk]
      · simp [hk]

theorem removeAll_config (now : Nat) (keys : List String) :
    ∀ s : KvStore, (keys.foldl (removeExpired now) s).config = s.config := by
  induction keys with
  | nil => exact fun s => rfl
  | cons key keys ih => exact fun s => (ih _).trans (emitKeyspaceEvent_config ..)

theorem removeAll_inTransaction (now : Nat) (keys : List String) :
    ∀ s : KvStore, (keys.foldl (removeExpired now) s).inTransaction = s.inTransaction := by
  induction keys with
  | nil => exact fun s => rfl
  | cons key keys ih =>
      intro s
      rw [List.foldl_cons, ih, removeExpired, inTransaction, emitKeyspaceEvent_transactionQueue]
      rfl

theorem cleanupExpired_contents (s : KvStore) (now : Nat) : (s.cleanupExpired now).2.contents
    = fun k => if k ∈ s.dueKeys now then none else s.contents k :=
  removeAll_contents now (s.dueKeys now) s

theorem cleanupExpired_config (s : KvStore) (now : Nat) :
    (s.cleanupExpired now).2.config = s.config := removeAll_config now (s.dueKeys now) s

theorem removeAll_valueBytes (now : Nat) (keys : List String) :
    ∀ s : KvStore, (keys.foldl (removeExpired now) s).valueBytes ≤ s.valueBytes := by
  induction keys with
  | nil => exact fun s => Nat.le_refl _
  | cons key keys ih =>
      intro s
      have hbytes := valueBytes_update (removeExpired_contents now s key)
      rw [cellSize_none] at hbytes
      exact (ih _).trans (by omega)

theorem removeExpired_drift (now : Nat) (s : KvStore) (key : String) :
    (s.removeExpired now key).drift = s.drift + cellSize (s.contents key) := by
  have hbytes := valueBytes_update (removeExpired_contents now s key)
  have hmem : (s.removeExpired now key).stats.memoryBytes = s.stats.memoryBytes := by
    simp only [removeExpired, emitKeyspaceEvent_stats]
  rw [cellSize_none] at hbytes
  unfold drift
  omega

/-- What is removed stays counted. -/
theorem removeAll_drift (now : Nat) (keys : List String) :
    ∀ s : KvStore, s.drift ≤ (keys.foldl (removeExpired now) s).drift ∧
      ((keys.foldl (removeExpired now) s).drift = s.drift ↔
        ∀ k ∈ keys, cellSize (s.contents k) = 0) := by
  induction keys with
  | nil => exact fun s => ⟨le_refl _, by simp⟩
  | cons key keys ih =>
      intro s
      obtain ⟨hle, hiff⟩ := ih (s.removeExpired now key)
      have hdrift := removeExpired_drift now s key
      rw [removeExpired_contents] at hiff
      rw [List.foldl_cons]
      refine ⟨by omega, fun h k hk => ?_, fun h => ?_⟩
      · have hzero : cellSize (s.contents key) = 0 := by omega
        rcases List.mem_cons.mp hk with rfl | hk
        · exact hzero
        · have hrest := hiff.mp (by omega) k hk
          by_cases heq : k = key
          · rw [heq]
            exact hzero
          · rwa [Function.update_of_ne heq] at hrest
      · have hzero := h key (by simp)
        have hrest : (keys.foldl (removeExpired now) (s.removeExpired now key)).drift
            = (s.removeExpired now key).drift := by
          apply hiff.mpr
          intro k hk
          by_cases heq : k = key
          · rw [heq, Function.update_self, cellSize_none]
          · rw [Function.update_of_ne heq]
            exact h k (List.mem_cons_of_mem _ hk)
        omega

theorem cleanupExpired_drift (s : KvStore) (now : Nat) :
    (s.cleanupExpired now).2.drift = s.drift ↔
      ∀ key entry, s.contents key = some entry → entry.due now → entrySize entry = 0 := by
  have hiff := (removeAll_drift now (s.dueKeys now) s).2
  rw [cleanupExpired_eq]
  refine Iff.trans hiff ⟨fun h key entry hentry hdue => ?_, fun h k hk => ?_⟩
  · have hsize := h key (mem_dueKeys_iff.mpr ⟨entry, hentry, hdue⟩)
    rwa [hentry] at hsize
  · obtain ⟨entry, hentry, hdue⟩ := mem_dueKeys_iff.mp hk
    rw [hentry]
    exact h k entry hentry hdue

/-- The bytes by which the queued operations make the entries grow, each at its turn. -/
def queueGrowth : List TransactionOp → (String → Option ValueWithTTL) → Int
  | [], _ => 0
  | op :: ops, m =>
      (cellSize (op.cell.2.onEntry (m op.cell.1)) - cellSize (m op.cell.1))
        + queueGrowth ops (run (entryUpdates [op.cell]) m)

theorem execOps_valueBytes (ops : List TransactionOp) :
    ∀ s : KvStore, ((execOps s ops).2.valueBytes : Int) = s.valueBytes + queueGrowth ops s.contents := by
  induction ops with
  | nil => intro s; simp [execOps, queueGrowth]
  | cons op ops ih =>
      intro s
      have hone : (s.execOp op).2.contents
          = Function.update s.contents op.cell.1 (op.cell.2.onEntry (s.contents op.cell.1)) :=
        execOp_contents s op
      have hbytes := valueBytes_update hone
      have hrest := ih (s.execOp op).2
      rw [execOp_contents] at hrest
      simp only [execOps, queueGrowth]
      omega

theorem exec_valueBytes (s : KvStore) : (s.exec.2.valueBytes : Int)
    = s.valueBytes + queueGrowth (s.transactionQueue.getD []) s.contents := by
  unfold exec
  cases htx : s.transactionQueue with
  | none => simp [queueGrowth]
  | some queue => exact execOps_valueBytes queue { s with transactionQueue := none }

theorem exec_memoryBytes (s : KvStore) : s.exec.2.stats.memoryBytes = s.stats.memoryBytes := by
  unfold exec
  split
  · rfl
  · exact (execOps_frame _ _).memoryBytes

end KvStore

/-- The calls that open, fill or drop a queue. -/
def Method.Queues : Method → Prop
  | multi | discard | queueOperation _ => True
  | _ => False

/-- Such a call changes nothing but the queue. -/
theorem KvStore.call_queues (rt : Runtime) (s : KvStore) (now : Nat) {m : Method} (hm : m.Queues) :
    ∃ queue, s.call rt (now, m) = { s with transactionQueue := queue } := by
  cases m with
  | multi =>
      show ∃ queue, s.multi.2 = { s with transactionQueue := queue }
      unfold multi
      split
      · exact ⟨s.transactionQueue, rfl⟩
      · exact ⟨some [], rfl⟩
  | discard =>
      show ∃ queue, s.discard.2 = { s with transactionQueue := queue }
      unfold discard
      split
      · exact ⟨s.transactionQueue, rfl⟩
      · exact ⟨none, rfl⟩
  | queueOperation op =>
      show ∃ queue, (s.queueOperation op).2 = { s with transactionQueue := queue }
      unfold queueOperation
      split
      · exact ⟨_, rfl⟩
      · exact ⟨s.transactionQueue, rfl⟩
  | _ => exact hm.elim

/-- The configuration after a call. -/
def Method.configAfter (config : StoreConfig) : Method → StoreConfig
  | setConfig next => next
  | setKeyspaceNotificationsEnabled enabled => { config with keyspaceNotificationsEnabled := enabled }
  | _ => config

namespace KvStore

theorem call_config (rt : Runtime) (s : KvStore) (c : Nat × Method) :
    (s.call rt c).config = c.2.configAfter s.config := by
  obtain ⟨now, m⟩ := c
  cases m with
  | write w => exact write_config rt s now w
  | pfreserve key precision =>
      show (s.pfreserve key precision).2.config = s.config
      rcases pfreserve_cases s key precision with ⟨e, he⟩ | ⟨-, -, heq⟩
      · rw [he]
      · rw [heq]
        rfl
  | cleanupExpired => exact cleanupExpired_config s now
  | exec => exact exec_config s
  | multi => exact multi_config s
  | discard => exact discard_config s
  | queueOperation op =>
      show (s.queueOperation op).2.config = s.config
      unfold queueOperation
      split <;> rfl
  | _ => rfl

end KvStore

end Daikon
