/-
# Daikon.Store.Listed -- the recency list has every stored key

What eviction can reach is what the recency list has (`Daikon.Store.Recency`). No method leaves a stored
key out of it (`call_listed`), so from an empty store on every key is within reach of the loop.

The proof is one case per method, by what the method does to the list and to the map: a put moves its key to
the end of the list, an eviction takes a key out of both, a removal takes it out of the map alone. The
converse, that the list has nothing but stored keys, does not hold, and `Daikon.Store.Stale` is about when
it does.

The loop of the eviction asks nothing of an entry but that the list has its key, so this is what makes the
cap of `Daikon.Store.Budget` reachable: a store that is over its cap can be brought under it by evicting
what the list names. A store that was read from a file gets a list of all its keys, and is listed from the
start; one that was recovered from a snapshot is not (`Daikon.Store.Reached`).
-/
import Daikon.Store.Touch

namespace Daikon

namespace KvStore

/-- The recency list has every stored key. -/
def Listed (s : KvStore) : Prop := ∀ k, s.Tracked k

theorem Listed.of_same {s s' : KvStore} (h : s.Listed) (hstore : s'.store = s.store)
    (hlru : s'.lruOrder = s.lruOrder) : s'.Listed := by
  intro k hk
  rw [hlru]
  exact h k (hstore ▸ hk)

theorem Listed.of_put {s s' : KvStore} {key : String} {entry : ValueWithTTL} (h : s.Listed)
    (hstore : s'.store = s.store.insert key entry) (hlru : s'.lruOrder = (s.updateLru key).lruOrder) :
    s'.Listed := fun k => (tracked_put hstore hlru).mpr (.inr (h k))

theorem Listed.of_removal {s s' : KvStore} {key : String} (h : s.Listed)
    (hstore : s'.store = s.store.erase key) (hlru : s'.lruOrder = s.lruOrder) : s'.Listed :=
  fun k => (tracked_removed hstore hlru).mpr (.inr (h k))

theorem Records.listed {s s' : KvStore} {us : List String} (hrec : Records s us s') (h : s.Listed) :
    s'.Listed := fun k => hrec.tracked.mpr (.inr (h k))

theorem setWithExpiry_listed {s : KvStore} (h : s.Listed) (now : Nat) (key : String) (value : Value)
    (expiresAt : Option Nat) : (s.setWithExpiry now key value expiresAt).2.Listed :=
  (setWithExpiry_records s now key value expiresAt).listed h

theorem delete_listed {s : KvStore} (h : s.Listed) (now : Nat) (key : String) :
    (s.delete now key).2.Listed := by
  cases htx : s.inTransaction with
  | false => exact fun k => (delete_tracked now htx).mpr (.inr (h k))
  | true =>
      obtain ⟨queue, hqueue⟩ := delete_deferred htx now key
      rw [hqueue]
      exact h.of_same rfl rfl

theorem write_listed (rt : Runtime) {s : KvStore} (now : Nat) (w : Write) (h : s.Listed) :
    (s.write rt now w).2.Listed := by
  cases w with
  | delete key => exact delete_listed h now key
  | _ => exact (write_records rt s now (by simp)).listed h

theorem execOps_listed (ops : List TransactionOp) :
    ∀ {s : KvStore}, s.Listed → (execOps s ops).2.Listed := by
  induction ops with
  | nil => exact fun h => h
  | cons op ops ih =>
      intro s h
      apply ih
      cases op with
      | set key value expiresAt => exact h.of_put rfl rfl
      | delete key => exact h.of_removal rfl rfl
      | incr key | decr key | incrBy key amount =>
          simp only [execOp, execAdd]
          split <;> exact h.of_put rfl rfl
      | append key value =>
          simp only [execOp]
          split <;> exact h.of_put rfl rfl

theorem removeAll_listed (now : Nat) (keys : List String) :
    ∀ {s : KvStore}, s.Listed → (keys.foldl (removeExpired now) s).Listed := by
  induction keys with
  | nil => exact fun h => h
  | cons key keys ih =>
      intro s h
      have herased : ({ s with store := s.store.erase key } : KvStore).Listed := h.of_removal rfl rfl
      exact ih fun k => (emitKeyspaceEvent_tracked now .expired).mpr (herased k)

/-- No method leaves a stored key out of the list. -/
theorem call_listed (rt : Runtime) {s : KvStore} (c : Nat × Method) (h : s.Listed) :
    (s.call rt c).Listed := by
  obtain ⟨now, m⟩ := c
  have hqueue : ∀ m : Method, m.Queues → (s.call rt (now, m)).Listed := by
    intro m hm
    obtain ⟨queue, hcall⟩ := call_queues rt s now hm
    rw [hcall]
    exact h.of_same rfl rfl
  cases m with
  | write w => exact write_listed rt now w h
  | pfreserve key precision =>
      show (s.pfreserve key precision).2.Listed
      exact (pfreserve_records precision).listed h
  | cleanupExpired => exact (removeAll_listed now (s.dueKeys now) h).of_same rfl rfl
  | exec =>
      show s.exec.2.Listed
      unfold exec
      split
      · exact h
      · exact execOps_listed _ (h.of_same rfl rfl)
  | multi | discard | queueOperation op => exact hqueue _ trivial
  | drainKeyspaceEvents | resetStats | setConfig config | setKeyspaceNotificationsEnabled enabled =>
      exact h.of_same rfl rfl

theorem withConfig_listed (config : StoreConfig) : (withConfig config).Listed := by
  intro k hk
  exact absurd hk Std.ExtTreeMap.not_mem_empty

end KvStore

end Daikon
