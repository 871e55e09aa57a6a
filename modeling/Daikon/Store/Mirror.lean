/-
# Daikon.Store.Mirror -- following the keyspace over a run

The events of a run, drained or pending, give a subscriber the keys of the store in every state exactly
if no call creates a key without an event, no `set` has its own key evicted, and EXEC leaves the set of
keys as it was (`events_describe_iff`).

A subscriber may be told by and by: events are drained at any time, and what is drained and what still waits
are one list (`Observed.events`). The statement is about every state of the run. With a call that is not
`Shown` the keys are wrong at once, so the condition is exact.

The follower is the one of `Daikon.Store.Events`: it adds a key at a set event and drops it at a deletion,
an expiry or an eviction. It is given every event of the store, and knows nothing else. What breaks it are
the calls that create a key in place, LPUSH and HSET and the counters among them, which report nothing.
-/
import Daikon.Store.Events

namespace Daikon

open Lib.Run (Always Guarded)
open KeyspaceEvent (follow follow_append)

namespace KvStore

/-- The operation neither creates the key nor removes it. -/
def KeepsKey (s : KvStore) (cell : String × CellOp) : Prop :=
  cell.2.onEntry (s.contents cell.1) = none ↔ s.contents cell.1 = none

/-- The events of the call are those of the keys that come and go with it. -/
def Shown (rt : Runtime) (s : KvStore) (c : Nat × Method) : Prop :=
  match c.2 with
  | .write (.set key value) | .write (.setWithTtl key value _) | .write (.getset key value) =>
      s.inTransaction = false → s.config.Valid key value → s.Stays key value
  | .write (.append key value) => s.inTransaction = false → s.contents key = none →
      s.config.Valid key (.str value) → s.Stays key (.str value)
  | .write (.mset pairs) => s.inTransaction = false → MsetStays c.1 pairs s
  | .write (.delete _) | .write (.expire _ _) | .write (.persist _) => True
  | .write (.pfadd key values) => s.KeepsKey (key, .addValues rt s.config key values)
  | .write (.pfmerge destination sources) => s.contents destination = none →
      ∀ count, (s.pfmerge destination sources).1 ≠ .ok count
  | .write w => ∀ cell ∈ w.cells rt s.config s.inTransaction c.1, s.KeepsKey cell
  | .pfreserve key _ => s.config.ValidKey key → s.contents key ≠ none
  | .exec => QueueKeepsKeys (s.transactionQueue.getD []) s.contents
  | _ => True

theorem write_reports (rt : Runtime) {s : KvStore} (now : Nat) (w : Write) (hlisted : s.Listed)
    (hon : s.config.keyspaceNotificationsEnabled = true) :
    Reports s (s.write rt now w).2 (s.Shown rt (now, .write w)) := by
  have hsilent : ∀ {w : Write} {key : String} {op : CellOp}, Roomless w →
      w.cells rt s.config s.inTransaction now = [(key, op)] →
      (s.write rt now w).2.pendingKeyspaceEvents = s.pendingKeyspaceEvents →
      Reports s (s.write rt now w).2
        (∀ cell ∈ w.cells rt s.config s.inTransaction now, s.KeepsKey cell) := by
    intro w key op hw hcells hpending
    have hmoves := write_moves rt s now hw
    rw [hcells] at hmoves ⊢
    exact (Reports.silent_one hmoves.contents hpending).congr (by simp [KeepsKey])
  cases w with
  | set key value => exact setWithExpiry_reports now none hlisted hon
  | setWithTtl key value ttl => exact setWithExpiry_reports now _ hlisted hon
  | getset key value =>
      rw [show (s.write rt now (.getset key value)).2 = _ from getset_snd s key now value]
      exact setWithExpiry_reports now none hlisted hon
  | append key value => exact append_reports now value hlisted hon
  | mset pairs => exact mset_reports now pairs hlisted hon
  | delete key => exact delete_reports now hon
  | expire key ttl => exact expire_reports now ttl hon
  | persist key => exact persist_reports now hon
  | pfadd key values =>
      exact Reports.silent_one (pfadd_moves rt s key values).contents (pfadd_pending s key rt values)
  | pfmerge destination sources => exact pfmerge_reports sources
  | incr key => exact hsilent trivial rfl (addToInt_pending s key 1)
  | decr key => exact hsilent trivial rfl (addToInt_pending s key (-1))
  | incrby key amount => exact hsilent trivial rfl (addToInt_pending s key amount)
  | lpush key values => exact hsilent trivial rfl (pushWith_pending s key pushFront values)
  | rpush key values => exact hsilent trivial rfl (pushWith_pending s key (· ++ ·) values)
  | lpop key => exact hsilent trivial rfl (popWith_pending s key popFront)
  | rpop key => exact hsilent trivial rfl (popWith_pending s key popBack)
  | hset key fields => exact hsilent trivial rfl (hset_pending s key fields)
  | hdel key fields => exact hsilent trivial rfl (hdel_pending s key fields)
  | hincrby key field amount =>
      exact hsilent trivial rfl (addToField_pending s key parseI64 0 (· + ·) toString field amount)
  | hincrbyfloat key field amount =>
      exact hsilent trivial rfl
        (addToField_pending s key rt.f64Parse 0.0 (· + ·) rt.f64ToString field amount)

/-- The step lemma: but for a drain, a call takes the subscriber from the keys before to those after
if and only if it is shown. -/
theorem call_reports (rt : Runtime) {s : KvStore} (c : Nat × Method) (hlisted : s.Listed)
    (hon : s.config.keyspaceNotificationsEnabled = true) (hdrain : c.2 ≠ .drainKeyspaceEvents) :
    Reports s (s.call rt c) (s.Shown rt c) := by
  obtain ⟨now, m⟩ := c
  have hnothing : ∀ {s' : KvStore}, s'.contents = s.contents →
      s'.pendingKeyspaceEvents = s.pendingKeyspaceEvents → Reports s s' True := by
    intro s' hcontents hpending
    refine (Reports.silent hpending).congr (iff_of_true ?_ trivial)
    rw [keys, keys, hcontents]
  have hqueue : ∀ m : Method, m.Queues → Reports s (s.call rt (now, m)) True := by
    intro m hm
    obtain ⟨queue, hcall⟩ := call_queues rt s now hm
    rw [hcall]
    exact hnothing rfl rfl
  cases m with
  | write w => exact write_reports rt now w hlisted hon
  | pfreserve key precision => exact pfreserve_reports precision
  | cleanupExpired => exact removeAll_reports now (s.dueKeys now) hon
  | exec => exact exec_reports s
  | multi | discard | queueOperation op => exact hqueue _ trivial
  | drainKeyspaceEvents => exact absurd rfl hdrain
  | resetStats | setConfig config | setKeyspaceNotificationsEnabled enabled => exact hnothing rfl rfl

end KvStore

/-- The call leaves the notifications on. -/
def Method.Notifies : Method → Prop
  | setConfig config => config.keyspaceNotificationsEnabled = true
  | setKeyspaceNotificationsEnabled enabled => enabled = true
  | _ => True

/-- A store, with the events that were drained from it. -/
structure Observed where
  store : KvStore
  drained : List KeyspaceEvent := []

namespace Observed

/-- A call on the store. What it drains is kept. -/
def call (rt : Runtime) (o : Observed) (c : Nat × Method) : Observed where
  store := o.store.call rt c
  drained := match c.2 with
    | .drainKeyspaceEvents => o.drained ++ o.store.drainKeyspaceEvents.1
    | _ => o.drained

/-- All events emitted so far, in order. -/
def events (o : Observed) : List KeyspaceEvent := o.drained ++ o.store.pendingKeyspaceEvents

/-- Who followed the events from the start has the keys of the store. -/
def Mirrored (o : Observed) : Prop := follow ∅ o.events = o.store.keys

theorem call_mirrored_iff (rt : Runtime) {o : Observed} (c : Nat × Method) (hlisted : o.store.Listed)
    (hon : o.store.config.keyspaceNotificationsEnabled = true) (h : o.Mirrored) :
    (o.call rt c).Mirrored ↔ o.store.Shown rt c := by
  by_cases hdrain : c.2 = .drainKeyspaceEvents
  · obtain ⟨now, m⟩ := c
    obtain rfl : m = .drainKeyspaceEvents := hdrain
    refine iff_of_true ?_ trivial
    show follow ∅ ((o.drained ++ o.store.pendingKeyspaceEvents) ++ []) = o.store.keys
    rw [List.append_nil]
    exact h
  · obtain ⟨new, hpending, hiff⟩ := KvStore.call_reports rt c hlisted hon hdrain
    have hdrained : (o.call rt c).drained = o.drained := by
      obtain ⟨now, m⟩ := c
      cases m with
      | drainKeyspaceEvents => exact absurd rfl hdrain
      | _ => rfl
    have hevents : (o.call rt c).events = o.events ++ new := by
      show (o.call rt c).drained ++ (o.store.call rt c).pendingKeyspaceEvents = _
      rw [hdrained, hpending, ← List.append_assoc]
      rfl
    unfold Mirrored at h ⊢
    rw [hevents, follow_append, h]
    exact hiff

theorem call_notifies (rt : Runtime) {o : Observed} (c : Nat × Method) (hc : c.2.Notifies)
    (h : o.store.config.keyspaceNotificationsEnabled = true) :
    (o.call rt c).store.config.keyspaceNotificationsEnabled = true := by
  obtain ⟨now, m⟩ := c
  show (o.store.call rt (now, m)).config.keyspaceNotificationsEnabled = true
  rw [KvStore.call_config]
  cases m with
  | setConfig config => exact hc
  | setKeyspaceNotificationsEnabled enabled => exact hc
  | _ => exact h

/-- What the run keeps: the list has every key, the notifications are on, and the events give the keys. -/
structure Followed (o : Observed) : Prop where
  listed : o.store.Listed
  notifies : o.store.config.keyspaceNotificationsEnabled = true
  mirrored : o.Mirrored

theorem fresh_followed {config : StoreConfig} (hon : config.keyspaceNotificationsEnabled = true) :
    Followed ⟨KvStore.withConfig config, []⟩ where
  listed := KvStore.withConfig_listed config
  notifies := hon
  mirrored := by
    show (∅ : Set String) = KvStore.keys (KvStore.withConfig config)
    ext k
    rw [KvStore.mem_keys_iff]
    simp [KvStore.contents, KvStore.withConfig]

/-- Over every run of a store from empty, with notifications on throughout: the events give the keys of
the store in every state if and only if every call is shown. -/
theorem events_describe_iff (rt : Runtime) (config : StoreConfig)
    (hon : config.keyspaceNotificationsEnabled = true) (cs : List (Nat × Method))
    (hcs : ∀ c ∈ cs, c.2.Notifies) :
    Always (call rt) Mirrored ⟨KvStore.withConfig config, []⟩ cs ↔
      Guarded (call rt) (fun o => o.store.Shown rt) ⟨KvStore.withConfig config, []⟩ cs := by
  have hnotifies : Guarded (call rt) (fun _ c => True ∧ c.2.Notifies)
      ⟨KvStore.withConfig config, []⟩ cs := Lib.Run.guarded_true.and_forall hcs
  have hstep : ∀ o c, Followed o → True ∧ c.2.Notifies → o.store.Shown rt c →
      Followed (o.call rt c) := fun o c h hc hshown =>
    ⟨KvStore.call_listed rt c h.listed, call_notifies rt c hc.2 h.notifies,
      (call_mirrored_iff rt c h.listed h.notifies h.mirrored).mpr hshown⟩
  have hbad : ∀ o c, Followed o → True ∧ c.2.Notifies → ¬ o.store.Shown rt c →
      ¬ (o.call rt c).Mirrored := fun o c h _ hshown hafter =>
    hshown ((call_mirrored_iff rt c h.listed h.notifies h.mirrored).mp hafter)
  exact Lib.Run.always_iff_guarded hstep (fun _ h => h.mirrored) hbad (fresh_followed hon) hnotifies

/-- A `set` and a delete. -/
theorem events_describe_iff_delete :
    Always (call .strings) Mirrored
        ⟨KvStore.withConfig { keyspaceNotificationsEnabled := true }, []⟩
        [(0, .write (.set "k" (.str "a"))), (1, .write (.delete "k"))] ↔
      Guarded (call .strings) (fun o => o.store.Shown .strings)
        ⟨KvStore.withConfig { keyspaceNotificationsEnabled := true }, []⟩
        [(0, .write (.set "k" (.str "a"))), (1, .write (.delete "k"))] :=
  events_describe_iff .strings _ rfl _ (by
    intro c hc
    rcases List.mem_cons.mp hc with rfl | hc
    · trivial
    · rw [List.mem_singleton.mp hc]
      trivial)

/-- LPUSH creates `k` and no event says so. -/
theorem push_not_mirrored : ¬ Always (call .strings) Mirrored
    ⟨KvStore.withConfig { keyspaceNotificationsEnabled := true }, []⟩
    [(0, .write (.lpush "k" ["a"]))] := by
  intro h
  have hstored : ((KvStore.withConfig { keyspaceNotificationsEnabled := true }).call .strings
      (0, .write (.lpush "k" ["a"]))).contents "k" ≠ none := by decide +kernel
  have hlast : (∅ : Set String) = ((KvStore.withConfig { keyspaceNotificationsEnabled := true }).call
      .strings (0, .write (.lpush "k" ["a"]))).keys := h.last
  rw [← KvStore.mem_keys_iff, ← hlast] at hstored
  exact hstored

end Observed

end Daikon
