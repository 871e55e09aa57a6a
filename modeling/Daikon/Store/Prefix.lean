/-
# Daikon.Store.Prefix -- eviction takes the shortest prefix that is enough

The loop of `enforce_memory_limit` takes names off the head of the recency list until the counter is
within the cap or the list is empty (`eviction_stops`). After every turn the store is the one that it
started from without the names taken so far, each of whose entries gave its bytes back and is reported
(`Taken`). The list has no name twice and every stored key, in every state that public methods reach, so
what is left when the loop stops is exact (`eviction_exact`).

The loop is described twice: as the recursion of the model and as a loop of `Lib.Loop`, whose rule gives an
invariant indexed by the number of turns. The invariant is `Taken`: after n turns the first n names are
gone, and each of them had to go because the counter, with the bytes of the names before it given back, was
still over the cap.

A name without a key is taken as well and gives nothing back. In a list with every stored key once, this is
harmless: the number of turns grows, and the entries that are taken are the same.
-/
import Daikon.Lib.Loop
import Daikon.Store.File
import Daikon.Store.Stale

namespace Daikon

open Lib.Loop (Stops)

namespace KvStore

/-- One turn of the loop; none where it is left. -/
def evictionTurn (now : Nat) (s : KvStore) : Option KvStore :=
  if s.stats.memoryBytes > s.config.maxMemoryBytes then
    match s.lruOrder with
    | lruKey :: rest => some (s.evictHead now lruKey rest)
    | [] => none
  else none

/-- The counter once the first `n` names of the list have given their bytes back. -/
def countAfter (s : KvStore) (n : Nat) : Nat :=
  s.stats.memoryBytes - ((s.lruOrder.take n).map fun k => cellSize (s.contents k)).sum

/-- The keys among the first `n` names. -/
def keysAmong (s : KvStore) (n : Nat) : List String :=
  (s.lruOrder.take n).filter fun k => (s.contents k).isSome

/-- The store without the first `n` names, all of which the loop had to take. -/
structure Taken (s : KvStore) (now n : Nat) (t : KvStore) : Prop where
  within : n ≤ s.lruOrder.length
  needed : ∀ m < n, s.config.maxMemoryBytes < s.countAfter m
  list : t.lruOrder = s.lruOrder.drop n
  contents : ∀ k, t.contents k = if k ∈ s.lruOrder.take n then none else s.contents k
  stats : t.stats = { s.stats with
    memoryBytes := s.countAfter n
    evictions := s.stats.evictions + (s.keysAmong n).length
    totalKeys := if s.keysAmong n = [] then s.stats.totalKeys else t.store.size }
  events : t.pendingKeyspaceEvents = s.pendingKeyspaceEvents ++
    if s.config.keyspaceNotificationsEnabled then (s.keysAmong n).map (⟨.evicted, ·, now⟩) else []
  config : t.config = s.config
  queue : t.transactionQueue = s.transactionQueue

theorem taken_zero (s : KvStore) (now : Nat) : Taken s now 0 s where
  within := Nat.zero_le _
  needed := fun m hm => absurd hm (Nat.not_lt_zero m)
  list := rfl
  contents := fun k => by simp
  stats := rfl
  events := by simp [keysAmong]
  config := rfl
  queue := rfl

/-! ## One turn -/

theorem evictionTurn_eq_some_iff {now : Nat} {s t : KvStore} : s.evictionTurn now = some t ↔
    s.config.maxMemoryBytes < s.stats.memoryBytes ∧
      ∃ lruKey rest, s.lruOrder = lruKey :: rest ∧ s.evictHead now lruKey rest = t := by
  unfold evictionTurn
  by_cases hover : s.stats.memoryBytes > s.config.maxMemoryBytes
  · rw [if_pos hover]
    cases hlru : s.lruOrder with
    | nil => simp
    | cons lruKey rest => simp [hover]
  · rw [if_neg hover]
    exact iff_of_false (by simp) fun h => hover h.1

section

variable {s t : KvStore} {now n : Nat} {lruKey : String} {rest : List String}

theorem take_next (h : s.lruOrder.drop n = lruKey :: rest) :
    n < s.lruOrder.length ∧ s.lruOrder.take (n + 1) = s.lruOrder.take n ++ [lruKey] ∧
      s.lruOrder.drop (n + 1) = rest := by
  have hlt : n < s.lruOrder.length := by
    by_contra hge
    rw [List.drop_of_length_le (Nat.le_of_not_lt hge)] at h
    cases h
  have hget : s.lruOrder[n] = lruKey ∧ s.lruOrder.drop (n + 1) = rest := by
    rw [List.drop_eq_getElem_cons hlt] at h
    exact List.cons.inj h
  refine ⟨hlt, ?_, hget.2⟩
  rw [List.take_add_one, List.getElem?_eq_getElem hlt, hget.1]
  rfl

theorem countAfter_next (h : s.lruOrder.drop n = lruKey :: rest) :
    s.countAfter (n + 1) = s.countAfter n - cellSize (s.contents lruKey) := by
  unfold countAfter
  rw [(take_next h).2.1, List.map_append, List.sum_append, List.map_singleton, List.sum_singleton,
    Nat.sub_sub]

theorem keysAmong_next (h : s.lruOrder.drop n = lruKey :: rest) : s.keysAmong (n + 1)
    = if (s.contents lruKey).isSome then s.keysAmong n ++ [lruKey] else s.keysAmong n := by
  unfold keysAmong
  rw [(take_next h).2.1, List.filter_append, List.filter_cons, List.filter_nil]
  split
  · rfl
  · exact List.append_nil _

/-- The next turn finds the entry of its name as it was when the loop began: the name was not taken
before. -/
theorem Taken.contents_head (h : Taken s now n t) (hnodup : s.lruOrder.Nodup)
    (hhead : s.lruOrder.drop n = lruKey :: rest) : t.contents lruKey = s.contents lruKey := by
  rw [h.contents, if_neg]
  intro hin
  have hsplit := List.take_append_drop n s.lruOrder
  rw [hhead] at hsplit
  rw [← hsplit] at hnodup
  exact (List.nodup_append.mp hnodup).2.2 lruKey hin lruKey List.mem_cons_self rfl

theorem evictHead_missing (h : s.contents lruKey = none) :
    s.evictHead now lruKey rest = { s with lruOrder := rest } := by
  have hkey : s.store[lruKey]? = none := h
  unfold evictHead
  rw [hkey]

theorem evictHead_present {entry : ValueWithTTL} (h : s.contents lruKey = some entry) :
    (s.evictHead now lruKey rest).stats = { s.stats with
      memoryBytes := s.stats.memoryBytes - cellSize (some entry)
      evictions := s.stats.evictions + 1
      totalKeys := (s.evictHead now lruKey rest).store.size } ∧
    (s.evictHead now lruKey rest).pendingKeyspaceEvents = s.pendingKeyspaceEvents ++
      (if s.config.keyspaceNotificationsEnabled then [⟨.evicted, lruKey, now⟩] else []) ∧
    (s.evictHead now lruKey rest).transactionQueue = s.transactionQueue := by
  have hkey : s.store[lruKey]? = some entry := h
  unfold evictHead
  rw [hkey]
  simp only [emitKeyspaceEvent_stats, emitKeyspaceEvent_store]
  refine ⟨rfl, ?_, ?_⟩
  · cases hon : s.config.keyspaceNotificationsEnabled <;> simp [emitKeyspaceEvent, hon]
  · cases hon : s.config.keyspaceNotificationsEnabled <;> simp [emitKeyspaceEvent, hon]

/-- A turn is taken only while the names before are not enough. -/
theorem Taken.needed_next (h : Taken s now n t) (hover : t.config.maxMemoryBytes < t.stats.memoryBytes) :
    ∀ m < n + 1, s.config.maxMemoryBytes < s.countAfter m := by
  intro m hm
  rcases Nat.lt_succ_iff_lt_or_eq.mp hm with hm | rfl
  · exact h.needed m hm
  · rw [h.config, h.stats] at hover
    exact hover

theorem Taken.contents_next (h : Taken s now n t) (hhead : s.lruOrder.drop n = lruKey :: rest) (k : String) :
    (t.evictHead now lruKey rest).contents k
      = if k ∈ s.lruOrder.take (n + 1) then none else s.contents k := by
  rw [(evictHead_effect t now lruKey rest).1, (take_next hhead).2.1]
  by_cases hk : k = lruKey
  · rw [hk, Function.update_self, if_pos (by simp)]
  · rw [Function.update_of_ne hk, h.contents]
    simp [hk]

/-- The step lemma: a turn takes one name more. -/
theorem Taken.next (hnodup : s.lruOrder.Nodup) {u : KvStore} (h : Taken s now n t)
    (hturn : t.evictionTurn now = some u) : Taken s now (n + 1) u := by
  obtain ⟨hover, lruKey, rest, hlru, rfl⟩ := evictionTurn_eq_some_iff.mp hturn
  have hhead : s.lruOrder.drop n = lruKey :: rest := h.list.symm.trans hlru
  obtain ⟨hlt, -, hdrop⟩ := take_next hhead
  have hneeded := h.needed_next hover
  have hcontents := h.contents_next hhead
  have hcell := h.contents_head hnodup hhead
  have hcount := countAfter_next hhead
  have hkeys := keysAmong_next hhead
  have hlist : (t.evictHead now lruKey rest).lruOrder = rest := evictHead_lruOrder
  have hconfig := (evictHead_config t now lruKey rest).trans h.config
  cases hentry : s.contents lruKey with
  | none =>
      -- a name without a key: nothing is counted or reported
      rw [evictHead_missing (hcell.trans hentry)] at hcontents ⊢
      rw [hentry] at hkeys hcount
      simp only [Option.isSome_none, Bool.false_eq_true, if_false] at hkeys
      refine ⟨hlt, hneeded, hdrop.symm, hcontents, ?_, ?_, h.config, h.queue⟩
      · rw [hkeys, hcount]
        exact h.stats
      · rw [hkeys]
        exact h.events
  | some entry =>
      rw [hentry] at hkeys hcount
      simp only [Option.isSome_some, if_true] at hkeys
      obtain ⟨hstats, hevents, hqueue⟩ := @evictHead_present t now lruKey rest entry (hcell.trans hentry)
      refine ⟨hlt, hneeded, hlist.trans hdrop.symm, hcontents, ?_, ?_, hconfig, hqueue.trans h.queue⟩
      · have hne : s.keysAmong n ++ [lruKey] ≠ [] := by simp
        rw [hstats, h.stats, hkeys, hcount, if_neg hne, List.length_append]
        rfl
      · rw [hevents, h.events, h.config, hkeys, List.append_assoc]
        split
        · rw [List.map_append, List.map_singleton]
        · rfl

end

/-! ## The loop -/

theorem enforceLoop_of_stops {now n : Nat} {s t : KvStore} (h : Stops (evictionTurn now) s n t) :
    t = enforceLoop now s.lruOrder s := by
  induction h with
  | @left s hnone =>
      unfold evictionTurn at hnone
      cases hlru : s.lruOrder with
      | nil => rfl
      | cons lruKey rest =>
          rw [hlru] at hnone
          rw [enforceLoop, if_neg fun hover => by simp [hover] at hnone]
  | @next s t u n hsome _ ih =>
      obtain ⟨hover, lruKey, rest, hlru, rfl⟩ := evictionTurn_eq_some_iff.mp hsome
      rw [ih, evictHead_lruOrder, hlru, enforceLoop, if_pos hover]

/-- Every turn takes a name off the list, so the loop is left, in the state that `enforce_memory_limit`
leaves. -/
theorem eviction_stops (now : Nat) (s : KvStore) :
    ∃ n, Stops (evictionTurn now) s n (enforceLoop now s.lruOrder s) := by
  have hshorter : ∀ t u : KvStore, t.evictionTurn now = some u →
      u.lruOrder.length < t.lruOrder.length := by
    intro t u hturn
    obtain ⟨-, lruKey, rest, hlru, rfl⟩ := evictionTurn_eq_some_iff.mp hturn
    rw [evictHead_lruOrder, hlru]
    exact Nat.lt_succ_self _
  obtain ⟨n, t, hstops⟩ := Lib.Loop.exists_stops (fun t : KvStore => t.lruOrder.length) hshorter s
  exact ⟨n, enforceLoop_of_stops hstops ▸ hstops⟩

/-- What is asked of the eviction from a state: it is over after some turns, each of which took a name
that had to go, and the names taken are enough or all there are, which leaves the store empty. -/
def EvictsShortest (s : KvStore) (now : Nat) : Prop :=
  ∃ n, (∀ m t, Stops (evictionTurn now) s m t ↔ m = n ∧ t = s.enforceMemoryLimit now) ∧
    Taken s now n (s.enforceMemoryLimit now) ∧
    (s.countAfter n ≤ s.config.maxMemoryBytes ∨ n = s.lruOrder.length) ∧
    (n = s.lruOrder.length → (s.enforceMemoryLimit now).store = ∅)

theorem evictsShortest_of_nodup {s : KvStore} (now : Nat) (hcap : 0 < s.config.maxMemoryBytes)
    (hnodup : s.lruOrder.Nodup) (hlisted : s.Listed) : s.EvictsShortest now := by
  obtain ⟨n, hstops⟩ := eviction_stops now s
  have hleft := enforceLoop_stops now s.lruOrder s rfl
  rw [← enforceMemoryLimit_capped hcap] at hstops hleft
  have htaken : Taken s now n (s.enforceMemoryLimit now) := by
    have hrun := hstops.invariant (I := Taken s now) (fun i t u h => h.next hnodup) 0 (taken_zero s now)
    rwa [Nat.zero_add] at hrun
  refine ⟨n, fun m t => ⟨fun h => h.unique hstops, ?_⟩, htaken, ?_, fun hall => ?_⟩
  · rintro ⟨rfl, rfl⟩
    exact hstops
  · refine hleft.imp (fun hunder => ?_) fun hempty => ?_
    · rwa [htaken.stats] at hunder
    · rw [htaken.list] at hempty
      exact Nat.le_antisymm htaken.within (List.drop_eq_nil_iff.mp hempty)
  · -- every stored key was among the names
    apply Std.ExtTreeMap.ext_getElem?
    intro k
    rw [Std.ExtTreeMap.getElem?_empty]
    have hk := htaken.contents k
    rw [hall, List.take_length] at hk
    refine hk.trans (ite_eq_left_iff.mpr fun hnot => ?_)
    exact by_contra fun hstored => hnot (hlisted k (mem_store_iff.mpr hstored))

/-! ## Every state that is reached -/

theorem delete_lruOrder (s : KvStore) (now : Nat) (key : String) :
    (s.delete now key).2.lruOrder = s.lruOrder := by
  cases htx : s.inTransaction with
  | true =>
      obtain ⟨queue, hqueue⟩ := delete_deferred htx now key
      rw [hqueue]
  | false =>
      unfold delete
      rw [if_neg (by simp [htx])]
      split
      · exact emitKeyspaceEvent_lruOrder now .delete
      · rfl

/-- No method puts a name into the list twice. -/
theorem call_nodup (rt : Runtime) {s : KvStore} (c : Nat × Method) (h : s.lruOrder.Nodup) :
    (s.call rt c).lruOrder.Nodup := by
  by_cases hkeeps : c.2 ≠ .exec ∧ s.RemovesNone c
  · exact (call_keeps rt c hkeeps.1 hkeeps.2 h).1
  obtain ⟨now, m⟩ := c
  cases m with
  | write w =>
      cases w with
      | delete key =>
          show (s.delete now key).2.lruOrder.Nodup
          rw [delete_lruOrder]
          exact h
      | _ => exact absurd ⟨by simp, trivial⟩ hkeeps
  | cleanupExpired =>
      show (s.cleanupExpired now).2.lruOrder.Nodup
      rw [cleanupExpired_lruOrder]
      exact h
  | exec =>
      show s.exec.2.lruOrder.Nodup
      unfold exec
      split
      · exact h
      · exact execOps_nodup _ _ h
  | _ => exact absurd ⟨by simp, trivial⟩ hkeeps

theorem withConfig_tracksKeys (config : StoreConfig) : (withConfig config).TracksKeys :=
  tracksKeys_iff.mpr ⟨List.Pairwise.nil, withConfig_listed config, fun _ hk => absurd hk.1 List.not_mem_nil⟩

theorem loadFromFile_tracksKeys {B : Type} {lib : FileLib B} (hlib : lib.Documented) {path : Path}
    {files : Files B} {s : KvStore} (h : loadFromFile lib path files = .ok s) : s.TracksKeys := by
  unfold loadFromFile at h
  split at h
  · cases h
  · split at h
    · cases h
    · split at h
      · cases h
      · cases h
        exact entries_keys_perm hlib _

theorem calls_invariant (rt : Runtime) {start : KvStore} (hstart : start.TracksKeys)
    (cs : List (Nat × Method)) :
    (calls rt start cs).lruOrder.Nodup ∧ (calls rt start cs).Listed := by
  have htidy := tracksKeys_iff.mp hstart
  exact Lib.Run.foldl_of_step (fun s : KvStore => s.lruOrder.Nodup ∧ s.Listed)
    (fun s c h => ⟨call_nodup rt c h.1, call_listed rt c h.2⟩) ⟨htidy.nodup, htidy.listed⟩ cs

/-- In every state that public methods reach, from a store whose recency list is a permutation of its
keys, as it is in a new store (`withConfig_tracksKeys`) and in a loaded one (`loadFromFile_tracksKeys`),
eviction takes the shortest prefix of the list that is enough. So it does in the state in which a put
calls it, with the new entry in. -/
theorem eviction_exact (rt : Runtime) {start : KvStore} (hstart : start.TracksKeys)
    (cs : List (Nat × Method)) (now : Nat)
    (hcap : 0 < (calls rt start cs).config.maxMemoryBytes) :
    (calls rt start cs).EvictsShortest now ∧
      ∀ key entry size, ((calls rt start cs).insertEntry key entry size).EvictsShortest now := by
  obtain ⟨hnodup, hlisted⟩ := calls_invariant rt hstart cs
  exact ⟨evictsShortest_of_nodup now hcap hnodup hlisted, fun key entry size =>
    evictsShortest_of_nodup now hcap (updateLru_nodup hnodup key) (hlisted.of_put rfl rfl)⟩

/-- Two keys, of which a lower cap leaves room for one. -/
theorem eviction_exact_two : (calls .strings new [(0, .write (.set "a" (.str "x"))),
      (0, .write (.set "b" (.str "y"))), (0, .setConfig { maxMemoryBytes := 1 })]).EvictsShortest 1 :=
  (eviction_exact .strings (withConfig_tracksKeys {}) _ 1 (by decide +kernel)).1

end KvStore

end Daikon
