/-
# Daikon.Store.Stale -- names in the recency list that have no key

Every put moves its key to the recent end of the list and every eviction takes its victim off, so the
list has no name twice and every stored key (`Daikon.Store.Listed`). The removals that are no evictions
leave it alone: behind a `delete`, a clean-up and a queued delete the name is still there. So the list
is a permutation of the keys in every state of a run if and only if none of these removes a key
(`lru_permutation_iff`).

A name that stays behind does no harm to what the store holds. It makes the eviction loop take a turn that
frees nothing, and it comes back to the end of the list when its key is written again. The invariant is a
permutation, so duplicates are excluded, too; no method ever makes one.

For EXEC the condition looks at the operations on each key: what is queued behind a delete brings the name
and the key back together, while a delete in the last place leaves the name alone, unless there was nothing
to delete and nothing else queued.
-/
import Daikon.Lib.Run
import Daikon.Store.Events
import Daikon.Store.Exec
import Daikon.Store.Isolation
import Daikon.Store.Listed
import Daikon.Store.Text

namespace Daikon

open Lib.Run (Always Guarded)

namespace KvStore

/-- A name in the list without a key. -/
def Stale (s : KvStore) (k : String) : Prop := k ∈ s.lruOrder ∧ k ∉ s.store

/-- The recency list is a permutation of the keys. -/
def TracksKeys (s : KvStore) : Prop := s.lruOrder.Perm s.store.keys

/-- The same, said of the names one by one. -/
structure Tidy (s : KvStore) : Prop where
  nodup : s.lruOrder.Nodup
  listed : s.Listed
  fresh : ∀ k, ¬ s.Stale k

theorem tracksKeys_iff {s : KvStore} : s.TracksKeys ↔ s.Tidy := by
  have hkeys : ∀ k, k ∈ s.store.keys ↔ k ∈ s.store := fun k => Std.ExtTreeMap.mem_keys
  constructor
  · intro h
    refine ⟨h.nodup_iff.mpr Std.ExtTreeMap.nodup_keys, fun k hk => ?_, fun k hk => hk.2 ?_⟩
    · exact h.mem_iff.mpr ((hkeys k).mpr hk)
    · exact (hkeys k).mp (h.mem_iff.mp hk.1)
  · intro h
    refine (List.perm_ext_iff_of_nodup h.nodup Std.ExtTreeMap.nodup_keys).mpr fun k => ?_
    rw [hkeys]
    exact ⟨fun hk => by_contra fun hnot => h.fresh k ⟨hk, hnot⟩, h.listed k⟩

/-! ## Calls that remove no key but by eviction -/

/-- The list stays free of duplicates, and no name becomes stale. -/
def Keeps (s s' : KvStore) : Prop :=
  s.lruOrder.Nodup → s'.lruOrder.Nodup ∧ ∀ k, s'.Stale k → s.Stale k

theorem Keeps.refl (s : KvStore) : Keeps s s := fun h => ⟨h, fun _ hk => hk⟩

theorem Keeps.trans {s s' s'' : KvStore} (h : Keeps s s') (h' : Keeps s' s'') : Keeps s s'' :=
  fun hnodup => ⟨(h' (h hnodup).1).1, fun k hk => (h hnodup).2 k ((h' (h hnodup).1).2 k hk)⟩

/-- The list is the same, and no key is gone. -/
theorem Keeps.of_same {s s' : KvStore} (hlru : s'.lruOrder = s.lruOrder)
    (hstore : ∀ k, k ∈ s.store → k ∈ s'.store) : Keeps s s' := by
  intro hnodup
  refine ⟨hlru ▸ hnodup, fun k hk => ⟨hlru ▸ hk.1, fun hin => hk.2 (hstore k hin)⟩⟩

theorem updateLru_nodup {s : KvStore} (h : s.lruOrder.Nodup) (key : String) :
    (s.updateLru key).lruOrder.Nodup := by
  refine List.nodup_append.mpr ⟨h.filter _, by simp, ?_⟩
  rintro k hk _ hkey rfl
  exact of_decide_eq_true (List.mem_filter.mp hk).2 (List.mem_singleton.mp hkey)

theorem Keeps.of_put {s s' : KvStore} {key : String} {entry : ValueWithTTL}
    (hstore : s'.store = s.store.insert key entry) (hlru : s'.lruOrder = (s.updateLru key).lruOrder) :
    Keeps s s' := by
  intro hnodup
  refine ⟨hlru ▸ updateLru_nodup hnodup key, fun k hk => ?_⟩
  obtain ⟨hlisted, hgone⟩ := hk
  rw [hstore, mem_insert_iff, not_or] at hgone
  rw [hlru, mem_updateLru_iff] at hlisted
  exact ⟨hlisted.resolve_left hgone.1, hgone.2⟩

/-- Puts and evictions keep the list so. -/
theorem Records.keeps {s s' : KvStore} {us : List String} (h : Records s us s') : Keeps s s' := by
  induction h with
  | same hlru hkeys => exact .of_same hlru fun k hk => (hkeys k).mpr hk
  | put hstore hlru => exact .of_put hstore hlru
  | @evict s s' lruKey hlru hkeys =>
      intro hnodup
      rw [hlru] at hnodup
      obtain ⟨hnot, hrest⟩ := List.nodup_cons.mp hnodup
      refine ⟨hrest, fun k hk => ?_⟩
      obtain ⟨hlisted, hgone⟩ := hk
      refine ⟨hlru ▸ List.mem_cons_of_mem lruKey hlisted, fun hin => hgone ?_⟩
      -- the victim is not in the rest of the list
      exact (hkeys k).mpr ⟨fun heq => hnot (heq ▸ hlisted), hin⟩
  | trans _ _ ih ih' => exact ih.trans ih'

/-! ## The removals that are no evictions -/

/-- A `delete` outside a transaction leaves the name of a stored key behind. -/
theorem delete_keeps {s : KvStore} (now : Nat) {key : String}
    (h : s.inTransaction = true ∨ s.contents key = none) : Keeps s (s.delete now key).2 := by
  cases htx : s.inTransaction with
  | true =>
      obtain ⟨queue, hqueue⟩ := delete_deferred htx now key
      rw [hqueue]
      exact .of_same rfl fun _ hk => hk
  | false =>
      have hnone : s.store[key]? = none := h.resolve_left (by simp [htx])
      unfold delete
      rw [if_neg (by simp [htx]), hnone]
      exact .refl s

theorem delete_stale {s : KvStore} (hlisted : s.Listed) (now : Nat) {key : String}
    (h : ¬ (s.inTransaction = true ∨ s.contents key = none)) : (s.delete now key).2.Stale key := by
  obtain ⟨htx, hkey⟩ := not_or.mp h
  obtain ⟨entry, hentry⟩ := Option.ne_none_iff_exists'.mp hkey
  have hstored : s.store[key]? = some entry := hentry
  have hin : key ∈ s.store := by
    rw [Std.ExtTreeMap.mem_iff_isSome_getElem?, hstored]
    rfl
  unfold delete
  rw [if_neg (by simpa using htx), hstored]
  refine ⟨?_, ?_⟩
  · rw [emitKeyspaceEvent_lruOrder]
    exact hlisted key hin
  · rw [emitKeyspaceEvent_store, mem_erase_iff]
    exact fun hmem => hmem.1 rfl

theorem removeAll_lruOrder (now : Nat) (keys : List String) :
    ∀ s : KvStore, (keys.foldl (removeExpired now) s).lruOrder = s.lruOrder := by
  induction keys with
  | nil => exact fun s => rfl
  | cons key keys ih => exact fun s => (ih _).trans (emitKeyspaceEvent_lruOrder now .expired)

theorem cleanupExpired_lruOrder (s : KvStore) (now : Nat) :
    (s.cleanupExpired now).2.lruOrder = s.lruOrder := removeAll_lruOrder now (s.dueKeys now) s

theorem mem_store_iff {s : KvStore} {k : String} : k ∈ s.store ↔ s.contents k ≠ none := by
  rw [Std.ExtTreeMap.mem_iff_isSome_getElem?, Option.isSome_iff_ne_none]
  rfl

theorem cleanupExpired_keeps {s : KvStore} {now : Nat}
    (h : ∀ key entry, s.contents key = some entry → entry.due now = false) :
    Keeps s (s.cleanupExpired now).2 := by
  refine .of_same (cleanupExpired_lruOrder s now) fun k hk => ?_
  rw [mem_store_iff, (cleanupExpired_contents_iff now).mpr h]
  exact mem_store_iff.mp hk

theorem cleanupExpired_stale {s : KvStore} (hlisted : s.Listed) {now : Nat} {key : String}
    {entry : ValueWithTTL} (hentry : s.contents key = some entry) (hdue : entry.due now = true) :
    (s.cleanupExpired now).2.Stale key := by
  refine ⟨?_, fun hin => mem_store_iff.mp hin ?_⟩
  · rw [cleanupExpired_lruOrder]
    exact hlisted key (mem_store_iff.mpr (by simp [hentry]))
  · rw [cleanupExpired_contents]
    exact if_pos (mem_dueKeys_iff.mpr ⟨entry, hentry, hdue⟩)

/-! ## The queue of a transaction -/

/-- All that is queued on a key but its delete moves the key to the recent end. -/
theorem execOp_lruOrder (s : KvStore) (op : TransactionOp) :
    (s.execOp op).2.lruOrder = if op = .delete op.cell.1 then s.lruOrder
      else (s.updateLru op.cell.1).lruOrder := by
  cases op with
  | set key value expiresAt => rfl
  | delete key => exact (if_pos rfl).symm
  | incr key | decr key | incrBy key amount =>
      rw [if_neg (by simp)]
      simp only [execOp, execAdd]
      split <;> rfl
  | append key value =>
      rw [if_neg (by simp)]
      simp only [execOp]
      split <;> rfl

theorem execOps_nodup (ops : List TransactionOp) :
    ∀ s : KvStore, s.lruOrder.Nodup → (execOps s ops).2.lruOrder.Nodup := by
  induction ops with
  | nil => exact fun _ h => h
  | cons op ops ih =>
      intro s h
      apply ih
      rw [execOp_lruOrder]
      split
      · exact h
      · exact updateLru_nodup h _

theorem mem_execOps_lruOrder_iff (ops : List TransactionOp) (k : String) :
    ∀ s : KvStore, k ∈ (execOps s ops).2.lruOrder ↔
      k ∈ s.lruOrder ∨ ∃ op ∈ opsOn ops k, op ≠ .delete k := by
  induction ops with
  | nil => intro s; simp [execOps, opsOn]
  | cons op ops ih =>
      intro s
      rw [execOps, ih, execOp_lruOrder]
      unfold opsOn
      -- an operation on another key neither adds nor takes the name
      by_cases hk : op.cell.1 = k
      · rw [List.filter_cons_of_pos (by simpa using hk), List.exists_mem_cons_iff, ← hk]
        split
        · next hdelete => simp [← hdelete]
        · next hput => simp [mem_updateLru_iff, hput]
      · rw [List.filter_cons_of_neg (by simpa using hk)]
        split
        · rfl
        · rw [mem_updateLru_iff]
          simp [Ne.symm hk]

/-- The delete of a key is its last operation in the queue only if the key is not there and all its
operations are deletes. -/
def QueueLeavesNone (ops : List TransactionOp) (m : String → Option ValueWithTTL) : Prop :=
  ∀ k, (opsOn ops k).getLast? = some (.delete k) → m k = none ∧ ∀ op ∈ opsOn ops k, op = .delete k

theorem execOps_fresh_iff {s : KvStore} (h : s.Tidy) (ops : List TransactionOp) :
    (∀ k, ¬ (execOps s ops).2.Stale k) ↔ QueueLeavesNone ops s.contents := by
  refine forall_congr' fun k => ?_
  have hstore : k ∈ (execOps s ops).2.store ↔
      ¬ (opsOn ops k).getLast?.elim (s.contents k = none) (· = .delete k) := by
    rw [mem_store_iff, ne_eq, execOps_eq_none_iff]
    rfl
  unfold Stale
  rw [mem_execOps_lruOrder_iff, hstore, not_not]
  -- the list began as a permutation of the keys
  have hlru : k ∈ s.lruOrder ↔ s.contents k ≠ none :=
    ⟨fun hk => mem_store_iff.mp (by_contra fun hnot => h.fresh k ⟨hk, hnot⟩),
      fun hk => h.listed k (mem_store_iff.mpr hk)⟩
  rw [hlru]
  cases hlast : (opsOn ops k).getLast? with
  | none =>
      rw [List.getLast?_eq_none_iff.mp hlast]
      simp
  | some op =>
      simp only [Option.elim_some, Option.some.injEq, not_and', not_or, not_not, not_exists]
      refine imp_congr_right fun _ => and_congr_right fun _ => forall_congr' fun op => ?_
      exact not_imp_not

/-! ## Every call, and every run -/

/-- The call removes no key but by eviction. -/
def RemovesNone (s : KvStore) (c : Nat × Method) : Prop :=
  match c.2 with
  | .write (.delete key) => s.inTransaction = true ∨ s.contents key = none
  | .cleanupExpired => ∀ key entry, s.contents key = some entry → entry.due c.1 = false
  | .exec => QueueLeavesNone (s.transactionQueue.getD []) s.contents
  | _ => True

theorem write_keeps (rt : Runtime) {s : KvStore} (now : Nat) (w : Write)
    (h : s.RemovesNone (now, .write w)) : Keeps s (s.write rt now w).2 := by
  cases w with
  | delete key => exact delete_keeps now h
  | _ => exact (write_records rt s now (by simp)).keeps

theorem call_keeps (rt : Runtime) {s : KvStore} (c : Nat × Method) (hexec : c.2 ≠ .exec)
    (h : s.RemovesNone c) : Keeps s (s.call rt c) := by
  obtain ⟨now, m⟩ := c
  have hqueue : ∀ m : Method, m.Queues → Keeps s (s.call rt (now, m)) := by
    intro m hm
    obtain ⟨queue, hcall⟩ := call_queues rt s now hm
    rw [hcall]
    exact .of_same rfl fun _ hk => hk
  cases m with
  | write w => exact write_keeps rt now w h
  | pfreserve key precision =>
      show Keeps s (s.pfreserve key precision).2
      exact (pfreserve_records precision).keeps
  | cleanupExpired => exact cleanupExpired_keeps h
  | exec => exact absurd rfl hexec
  | multi | discard | queueOperation op => exact hqueue _ trivial
  | drainKeyspaceEvents | resetStats | setConfig config | setKeyspaceNotificationsEnabled enabled =>
      exact .of_same rfl fun _ hk => hk

theorem exec_tidy_iff (rt : Runtime) {s : KvStore} (now : Nat) (h : s.Tidy) :
    (s.call rt (now, .exec)).Tidy ↔ s.RemovesNone (now, .exec) := by
  have hlisted := call_listed rt (now, .exec) h.listed
  show s.exec.2.Tidy ↔ QueueLeavesNone (s.transactionQueue.getD []) s.contents
  change s.exec.2.Listed at hlisted
  unfold exec at hlisted ⊢
  cases htx : s.transactionQueue with
  | none => exact iff_of_true h fun k hlast => by simp [opsOn] at hlast
  | some queue =>
      rw [htx] at hlisted
      have hopen : ({ s with transactionQueue := none } : KvStore).Tidy := ⟨h.nodup, h.listed, h.fresh⟩
      have hiff := execOps_fresh_iff hopen queue
      exact ⟨fun hafter => hiff.mp hafter.fresh,
        fun hqueue => ⟨execOps_nodup queue _ h.nodup, hlisted, hiff.mpr hqueue⟩⟩

/-- The step lemma: from a list that is a permutation of the keys, a call leaves one if and only if it
removes no key but by eviction. -/
theorem call_tidy_iff (rt : Runtime) {s : KvStore} (c : Nat × Method) (h : s.Tidy) :
    (s.call rt c).Tidy ↔ s.RemovesNone c := by
  have hkept : c.2 ≠ .exec → s.RemovesNone c → (s.call rt c).Tidy := by
    intro hexec hnone
    obtain ⟨hnodup, hstale⟩ := call_keeps rt c hexec hnone h.nodup
    exact ⟨hnodup, call_listed rt c h.listed, fun k hk => h.fresh k (hstale k hk)⟩
  obtain ⟨now, m⟩ := c
  cases m with
  | exec => exact exec_tidy_iff rt now h
  | cleanupExpired =>
      refine ⟨fun hafter key entry hentry => ?_, hkept (by simp)⟩
      by_contra hdue
      exact hafter.fresh key (cleanupExpired_stale h.listed hentry (by simpa using hdue))
  | write w =>
      refine ⟨fun hafter => ?_, hkept (by simp)⟩
      cases w with
      | delete key =>
          by_contra hremoved
          exact hafter.fresh key (delete_stale h.listed now hremoved)
      | _ => trivial
  | _ => exact ⟨fun _ => trivial, hkept (by simp)⟩

/-- In every state of a run from an empty store the recency list is a permutation of the keys, if and
only if no call of the run removes a key otherwise than by eviction. -/
theorem lru_permutation_iff (rt : Runtime) (config : StoreConfig) (cs : List (Nat × Method)) :
    Always (call rt) TracksKeys (withConfig config) cs ↔
      Guarded (call rt) RemovesNone (withConfig config) cs := by
  apply Lib.Run.always_iff_guarded_of_step (I := Tidy)
  · exact fun s c h hc => (call_tidy_iff rt c h).mpr hc
  · exact fun s h => tracksKeys_iff.mpr h
  · exact fun s c h hc hafter => hc ((call_tidy_iff rt c h).mp (tracksKeys_iff.mp hafter))
  · refine ⟨List.Pairwise.nil, withConfig_listed config, fun k hk => ?_⟩
    exact absurd hk.1 List.not_mem_nil

/-- A key is set and deleted: its name stays in the list. -/
theorem deleted_key_listed :
    (calls .strings new [(0, .write (.set "k" (.str "a"))), (0, .write (.delete "k"))]).lruOrder = ["k"] ∧
      ¬ Always (call .strings) TracksKeys new
        [(0, .write (.set "k" (.str "a"))), (0, .write (.delete "k"))] := by
  have hlist : (calls .strings new [(0, .write (.set "k" (.str "a"))),
      (0, .write (.delete "k"))]).lruOrder = ["k"] := by decide +kernel
  have hkeys : (calls .strings new [(0, .write (.set "k" (.str "a"))),
      (0, .write (.delete "k"))]).store.keys = [] := by decide +kernel
  refine ⟨hlist, fun h => ?_⟩
  have hperm : TracksKeys (calls .strings new [(0, .write (.set "k" (.str "a"))),
      (0, .write (.delete "k"))]) := h.last
  unfold TracksKeys at hperm
  rw [hlist, hkeys] at hperm
  exact absurd hperm.length_eq (by decide)

end KvStore

end Daikon
