/-
# Daikon.Recovery.Expiry -- the expiries that carrying out a log sets

An entry has a time stamp and a time to live; the call that is made of it counts from the clock of the
store. So an expiry is right after a replay, a recovery or a sync exactly if the entry that set it
last was carried out in the second in which it was logged (`expiry_absolute_iff`).

Three pieces of code carry entries out, and the theorem is about all of them at once: `CarriedOut` relates a
store, the entries with the clocks at which they were carried out, and the store after them, with one rule
for the replay, one for the recovery and one for the sync of a replica. What follows is proved by induction
on the list of what was carried out, not three times over the code.

For the expiry that a key has in the end only the last entry counts that set one (`lastSetter`), a SET with
a time to live or an EXPIRE whose key is there. `replay_revives` is a key that had expired before the crash
and is back after it, for another ten seconds.
-/
import Daikon.Pitr.Operational
import Daikon.Replica.Sync
import Daikon.Store.Expiry

namespace Daikon

/-- `ttl_secs` of a SET or an EXPIRE. -/
def WalOperation.ttlSecs : WalOperation → Option Nat
  | set _ _ ttl => ttl
  | expire _ ttl => some ttl
  | _ => none

/-- An entry as it is carried out: when, and by which of the two calls that are made of entries. -/
structure Carried (rt : Runtime) where
  now : Nat
  entry : WalEntry
  call : Write
  made : entry.operation.replayed rt = some call ∨ entry.operation.raw = call

namespace Carried

variable {rt : Runtime}

/-- As replay carries an entry out, if it does. -/
def replayed (rt : Runtime) (e : Nat × WalEntry) : Option (Carried rt) :=
  match h : e.2.operation.replayed rt with
  | some call => some ⟨e.1, e.2, call, .inl h⟩
  | none => none

/-- As recovery and replicas carry it out. -/
def raw (rt : Runtime) (now : Nat) (entry : WalEntry) : Carried rt :=
  ⟨now, entry, entry.operation.raw, .inr rfl⟩

/-- The calls of a list of entries, with their clocks. -/
def calls (cs : List (Carried rt)) : List (Nat × Write) := cs.map fun c => (c.now, c.call)

/-- The expiry that the call sets: it counts from the clock. -/
def deadline (c : Carried rt) : Option Nat := c.entry.operation.ttlSecs.bind (checkedAdd c.now)

end Carried

section

variable {rt : Runtime}

/-- The last of the entries whose call sets the expiry of the key. -/
def lastSetter (k : String) : List (Carried rt) → KvStore → Option (Carried rt)
  | [], _ => none
  | c :: cs, s =>
      (lastSetter k cs (s.write rt c.now c.call).2).or
        (if (c.call.setsExpiry s c.now k).isSome then some c else none)

theorem WalOperation.raw_ttlSecs (op : WalOperation) : op.raw.ttlSecs = op.ttlSecs := by
  cases op with
  | set key value ttl => cases ttl <;> rfl
  | _ => rfl

theorem WalOperation.replayed_ttlSecs {op : WalOperation} {w : Write}
    (h : op.replayed rt = some w) : w.ttlSecs = op.ttlSecs := by
  cases op with
  | set key value ttl =>
      cases ttl <;>
        (obtain ⟨parsed, -, rfl⟩ := Option.map_eq_some_iff.mp h
         rfl)
  | getSet key value =>
      obtain ⟨parsed, -, rfl⟩ := Option.map_eq_some_iff.mp h
      rfl
  | mset pairs =>
      obtain ⟨parsed, -, rfl⟩ := Option.map_eq_some_iff.mp h
      rfl
  | _ => cases h; rfl

theorem mem_of_lastSetter {k : String} {cs : List (Carried rt)} {c : Carried rt} :
    ∀ {s : KvStore}, lastSetter k cs s = some c → c ∈ cs := by
  induction cs with
  | nil => intro s h; cases h
  | cons d cs ih =>
      intro s h
      rcases Option.or_eq_some_iff.mp h with hrest | ⟨-, hfirst⟩
      · exact List.mem_cons_of_mem _ (ih hrest)
      · split at hfirst
        · cases hfirst
          simp
        · cases hfirst

theorem Carried.of_replayed {e : Nat × WalEntry} {c : Carried rt} (h : Carried.replayed rt e = some c) :
    c.now = e.1 ∧ c.entry = e.2 := by
  unfold Carried.replayed at h
  split at h
  · cases h
    exact ⟨rfl, rfl⟩
  · cases h

/-- The time to live of a call is that of its entry. -/
theorem Carried.ttlSecs {c : Carried rt} {s : KvStore} {now ttl : Nat} {k : String}
    (h : c.call.setsExpiry s now k = some ttl) : c.entry.operation.ttlSecs = some ttl := by
  have hcall := Write.setsExpiry_ttlSecs h
  rcases c.made with hreplayed | hraw
  · rw [← WalOperation.replayed_ttlSecs hreplayed]
    exact hcall
  · rw [← WalOperation.raw_ttlSecs, hraw]
    exact hcall

/-- At the end, a key has the expiry that was set last, else the one it began with, or it has none. -/
theorem writes_expiry (k : String) (cs : List (Carried rt)) :
    ∀ s : KvStore, (s.writes rt (Carried.calls cs)).LeavesExpiry k
      ((lastSetter k cs s).elim (s.expiry k) Carried.deadline) := by
  induction cs with
  | nil => intro s; exact .inr rfl
  | cons c cs ih =>
      intro s
      have hrest := ih (s.write rt c.now c.call).2
      rw [lastSetter]
      cases hlast : lastSetter k cs (s.write rt c.now c.call).2 with
      -- a later entry sets it: what this one did is overwritten
      | some d =>
          rw [hlast] at hrest
          exact hrest
      | none =>
          rw [hlast] at hrest
          have hone := KvStore.write_expiry rt s c.now c.call k
          rcases hrest with hnone | hkept
          · exact .inl hnone
          · rcases hone with hnone | hset
            · exact .inl (hkept.trans hnone)
            · refine .inr (hkept.trans (hset.trans ?_))
              cases httl : c.call.setsExpiry s c.now k with
              | none => rfl
              | some ttl =>
                  show checkedAdd c.now ttl = c.deadline
                  rw [Carried.deadline, Carried.ttlSecs httl]
                  rfl

/-! ## The three interpreters -/

namespace ReplicationReplica

/-- The entries that reach the store of a replica: up to the first one that is refused or cannot be
appended. -/
def reached (rt : Runtime) (io : SyncIo) :
    List (WalEntry × Nat) → ReplicationReplica → List (Carried rt)
  | [], _ => []
  | (entry, n) :: entries, r =>
      Carried.raw rt (io.now n) entry ::
        match r.applyWalEntry rt (io.now n) (io.disk n) entry with
        | (.error _, _) => []
        | (.ok (), r) => reached rt io entries (r.remember entry.timestamp)

theorem applyEntries_store (io : SyncIo) (entries : List (WalEntry × Nat)) :
    ∀ r : ReplicationReplica, (applyEntries rt io entries r).2.store
      = r.store.writes rt (Carried.calls (reached rt io entries r)) := by
  induction entries with
  | nil => intro r; rfl
  | cons e entries ih =>
      intro r
      obtain ⟨entry, n⟩ := e
      have hstore := applyWalEntry_store rt (io.now n) (io.disk n) r entry
      rw [applyEntries, reached]
      rcases hr : r.applyWalEntry rt (io.now n) (io.disk n) entry with ⟨e | _, r'⟩ <;>
        rw [hr] at hstore
      · exact hstore
      · have hrest := ih (r'.remember entry.timestamp)
        rw [show (r'.remember entry.timestamp).store = _ from hstore] at hrest
        exact hrest

/-- The entries of a sync that reach the store. -/
def synced (rt : Runtime) (r : ReplicationReplica) (io : SyncIo) (master : List WalEntry) :
    List (Carried rt) :=
  if io.heartbeat = none ∧ io.fetch = none then reached rt io (r.pending master) r else []

theorem sync_store (r : ReplicationReplica) (io : SyncIo) (master : List WalEntry) :
    (r.sync rt io master).2.store
      = r.store.writes rt (Carried.calls (synced rt r io master)) := by
  unfold synced
  by_cases hreach : io.heartbeat = none ∧ io.fetch = none
  · rw [if_pos hreach, ← applyEntries_store, sync_of_reachable hreach.1 hreach.2]
    rcases applyEntries rt io (r.pending master) r with ⟨_ | _, r'⟩ <;> rfl
  · rw [if_neg hreach, (sync_of_unreachable rt r master hreach).2]
    rfl

end ReplicationReplica

/-- A log is carried out on a store: by a replay, by a recovery, by a sync, or by several of these in
turn. -/
inductive CarriedOut (rt : Runtime) : KvStore → List (Carried rt) → KvStore → Prop
  | replay {entries : List (Nat × WalEntry)} {s s' : KvStore} (h : replayWal rt entries s = .ok s') :
      CarriedOut rt s (entries.filterMap (Carried.replayed rt)) s'
  | recovery {c : SnapshotCodec} {srv : Server} {io : Io} {disk : Pitr.RecoverIo}
      {recovery : Pitr.Recovery} {target : Nat} {base : KvStore} {wal : List WalEntry}
      (hkey : requireApiKey io.headers srv.runtime = none)
      (h : Pitr.Succeeds c disk recovery target base wal) :
      CarriedOut rt base ((Pitr.carriedOut disk target wal).map fun e => Carried.raw rt e.1 e.2)
        (srv.handle rt io (recovery.request c rt disk)).2.store
  | sync (r : ReplicationReplica) (io : SyncIo) (master : List WalEntry) :
      CarriedOut rt r.store (r.synced rt io master) (r.sync rt io master).2.store
  | trans {s s' s'' : KvStore} {cs cs' : List (Carried rt)} (h : CarriedOut rt s cs s')
      (h' : CarriedOut rt s' cs' s'') : CarriedOut rt s (cs ++ cs') s''

theorem calls_replayed (entries : List (Nat × WalEntry)) :
    Carried.calls (entries.filterMap (Carried.replayed rt)) = replayCalls rt entries := by
  rw [Carried.calls, List.map_filterMap, replayCalls]
  congr 1
  funext e
  unfold Carried.replayed
  split
  · next call hcall =>
      show some (e.1, call) = _
      rw [hcall]
      rfl
  · next hnone =>
      show none = _
      rw [hnone]
      rfl

/-- Whichever carries it out, the store is that after the calls. -/
theorem CarriedOut.store {s s' : KvStore} {cs : List (Carried rt)} (h : CarriedOut rt s cs s') :
    s' = s.writes rt (Carried.calls cs) := by
  induction h with
  | @replay entries s s' h =>
      have hreplayable := (replayWal_ok_iff rt entries s).mp ⟨s', h⟩
      rw [replayWal_eq entries hreplayable, foldl_writeOpt] at h
      rw [calls_replayed]
      cases h
      rfl
  | recovery hkey h =>
      rw [h.store rt hkey, rawCalls, Carried.calls, List.map_map]
      rfl
  | sync r io master => exact ReplicationReplica.sync_store r io master
  | trans _ _ ih ih' =>
      rw [ih', ih, Carried.calls, Carried.calls, Carried.calls, List.map_append, KvStore.writes_append]

/-! ## Expiry is absolute -/

/-- The expiry counts from the second in which the entry was logged, and hides the key after it. -/
structure CountedFromLog (s : KvStore) (k : String) (exp : Nat) (entry : WalEntry) (ttl : Nat) :
    Prop where
  expiry : exp = entry.timestamp + ttl
  hidden : ∀ now > entry.timestamp + ttl, s.get now k = none

/-- A key is hidden once its expiry has passed. -/
theorem hidden_after {s : KvStore} {k : String} {exp now : Nat} (hexp : s.expiry k = some exp)
    (h : now > exp) : s.get now k = none := by
  obtain ⟨entry, hkey, hexp⟩ := Option.bind_eq_some_iff.mp hexp
  show s.store[k]?.bind _ = none
  rw [show s.store[k]? = some entry from hkey]
  simp [ValueWithTTL.expired, hexp, h]

/-- Whatever the log, the store and the clocks: the expiry that a key ends up with counts from the log
exactly if the entry that set it last was carried out in the second in which it was logged. -/
theorem expiry_absolute_iff {s s' : KvStore} {cs : List (Carried rt)} (h : CarriedOut rt s cs s')
    {k : String} {exp : Nat} (hexp : s'.expiry k = some exp) :
    (∀ c ttl, lastSetter k cs s = some c → c.entry.operation.ttlSecs = some ttl →
        CountedFromLog s' k exp c.entry ttl) ↔
      ∀ c, lastSetter k cs s = some c → c.now = c.entry.timestamp := by
  have hstore := h.store
  have hset : s'.LeavesExpiry k ((lastSetter k cs s).elim (s.expiry k) Carried.deadline) :=
    hstore ▸ writes_expiry k cs s
  rw [KvStore.LeavesExpiry, hexp] at hset
  -- there is an expiry, so the deadline of the last setter is what is left
  have hdeadline : ∀ c, lastSetter k cs s = some c →
      ∃ ttl, c.entry.operation.ttlSecs = some ttl ∧ exp = c.now + ttl := by
    intro c hc
    rw [hc] at hset
    rcases hset with hnone | hset
    · cases hnone
    · obtain ⟨ttl, httl, hadd⟩ := Option.bind_eq_some_iff.mp hset.symm
      refine ⟨ttl, httl, ?_⟩
      unfold checkedAdd at hadd
      split at hadd
      · cases hadd
        rfl
      · cases hadd
  constructor
  · intro h c hc
    obtain ⟨ttl, httl, hnow⟩ := hdeadline c hc
    have hlogged := (h c ttl hc httl).expiry
    omega
  · intro h c ttl hc httl
    obtain ⟨ttl', httl', hnow⟩ := hdeadline c hc
    rw [httl] at httl'
    cases httl'
    rw [h c hc] at hnow
    refine ⟨hnow, fun now hlater => ?_⟩
    exact hidden_after hexp (by omega)

end

/-- A SET with ten seconds to live, logged in the fifth second. -/
def setForTen : WalEntry := WalEntry.new 5 (.set "k" (strToJson "v") (some 10))

/-- The store after its replay at the given clock. -/
def revived (now : Nat) : KvStore :=
  ((KvStore.withConfig {}).write .strings now (.setWithTtl "k" (.str "v") 10)).2

theorem replay_setForTen (now : Nat) :
    replayWal .strings [(now, setForTen)] (.withConfig {}) = .ok (revived now) := by
  have hdecode : Runtime.strings.valueFromJson (strToJson "v") = some (.str "v") := by
    rw [Runtime.strings_valueFromJson]
    exact strFromJson_strToJson "v"
  simp only [replayWal, replayOperation, setForTen, WalEntry.new, hdecode]
  rfl

theorem lastSetter_setForTen {now : Nat} {c : Carried .strings}
    (h : lastSetter "k" ([(now, setForTen)].filterMap (Carried.replayed .strings)) (.withConfig {})
      = some c) : c.now = now ∧ c.entry = setForTen := by
  obtain ⟨e, he, hc⟩ := List.mem_filterMap.mp (mem_of_lastSetter h)
  rw [List.mem_singleton.mp he] at hc
  exact Carried.of_replayed hc

/-- The entry is the one that sets the expiry. -/
theorem lastSetter_replayed (now : Nat) (h : (lastSetter "k"
      ([(now, setForTen)].filterMap (Carried.replayed .strings)) (.withConfig {})).isSome = true) :
    ∃ c, lastSetter "k" ([(now, setForTen)].filterMap (Carried.replayed .strings)) (.withConfig {})
      = some c ∧ c.entry = setForTen := by
  obtain ⟨c, hc⟩ := Option.isSome_iff_exists.mp h
  exact ⟨c, hc, (lastSetter_setForTen hc).2⟩

/-- Replayed in the second in which it was logged, it expires ten seconds later. -/
theorem expiry_absolute_iff_at_once : CountedFromLog (revived 5) "k" 15 setForTen 10 := by
  obtain ⟨c, hc, hentry⟩ := lastSetter_replayed 5 (by decide +kernel)
  rw [← hentry]
  refine (expiry_absolute_iff (.replay (replay_setForTen 5)) (by decide)).mpr (fun c' hc' => ?_) c 10
    hc (by rw [hentry]; rfl)
  obtain ⟨hnow, hentry'⟩ := lastSetter_setForTen hc'
  rw [hnow, hentry']
  rfl

/-- Replayed in the hundredth second, the key that expired in the fifteenth is visible again. -/
theorem replay_revives :
    replayWal .strings [(100, setForTen)] (.withConfig {}) = .ok (revived 100) ∧
      (revived 100).expiry "k" = some 110 ∧ (revived 100).get 100 "k" = some (.str "v") ∧
      ¬ ∀ c ttl, lastSetter "k" ([(100, setForTen)].filterMap (Carried.replayed .strings))
          (.withConfig {}) = some c → c.entry.operation.ttlSecs = some ttl →
        CountedFromLog (revived 100) "k" 110 c.entry ttl := by
  refine ⟨replay_setForTen 100, by decide, by decide, fun h => ?_⟩
  obtain ⟨c, hc, hentry⟩ := lastSetter_replayed 100 (by decide +kernel)
  have hexpiry := (h c 10 hc (by rw [hentry]; rfl)).expiry
  rw [hentry] at hexpiry
  revert hexpiry
  decide

end Daikon
