/-
# Daikon.Store.Emits -- which store calls report an event

The queue of events only grows under the store calls, and it grows just if notifications are on and
the call does something: a put that is neither refused nor queued, a delete of a present key, another
expiry (`write_emits`). An append emits where it creates its key, an MSET with its first pair. Counters,
lists, hashes and HyperLogLogs never do.

This is the condition under which a call leaves something to be published. It is stated on the state before
the call (`Write.Noted`), with notifications on. What the events say, and whether they say enough, is
another question, which `Daikon.Store.Events` is about; here only their number matters, and in fact only
whether it is zero.
-/
import Daikon.Store.Events

namespace Daikon

open Lib.Run (Guarded)

namespace KvStore

/-- Events join the queue behind those of `s`, and there is one if and only if `C`. -/
def Emits (s s' : KvStore) (C : Prop) : Prop :=
  ∃ new, s'.pendingKeyspaceEvents = s.pendingKeyspaceEvents ++ new ∧ (new ≠ [] ↔ C)

section

variable {s s' s'' : KvStore} {C D : Prop}

theorem Emits.congr (h : Emits s s' C) (hCD : C ↔ D) : Emits s s' D := by
  obtain ⟨new, hpending, hiff⟩ := h
  exact ⟨new, hpending, hiff.trans hCD⟩

theorem Emits.silent (h : s'.pendingKeyspaceEvents = s.pendingKeyspaceEvents) : Emits s s' False :=
  ⟨[], by rw [h, List.append_nil], by simp⟩

theorem Emits.trans (h : Emits s s' C) (h' : Emits s' s'' D) : Emits s s'' (C ∨ D) := by
  obtain ⟨new, hpending, hiff⟩ := h
  obtain ⟨new', hpending', hiff'⟩ := h'
  refine ⟨new ++ new', by rw [hpending', hpending, List.append_assoc], ?_⟩
  rw [← hiff, ← hiff', ne_eq, List.append_eq_nil_iff, not_and_or]

/-- The queue is as before exactly if nothing joined it. -/
theorem Emits.pending_eq_iff (h : Emits s s' C) :
    s'.pendingKeyspaceEvents = s.pendingKeyspaceEvents ↔ ¬ C := by
  obtain ⟨new, hpending, hiff⟩ := h
  rw [hpending, List.append_right_eq_self, ← hiff, not_not]

/-! ## Puts -/

theorem emitKeyspaceEvent_emits (s : KvStore) (now : Nat) (kind : KeyspaceEventKind) (key : String) :
    Emits s (s.emitKeyspaceEvent now kind key) (s.config.keyspaceNotificationsEnabled = true) := by
  by_cases hon : s.config.keyspaceNotificationsEnabled = true
  · exact ⟨[⟨kind, key, now⟩], emitKeyspaceEvent_pending s now kind key hon, by simp [hon]⟩
  · refine (Emits.silent ?_).congr (iff_of_false id hon)
    rw [emitKeyspaceEvent, if_neg hon]

/-- Evictions report at most where notifications are on. -/
theorem enforceMemoryLimit_emits (s : KvStore) (now : Nat) :
    ∃ C, Emits s (s.enforceMemoryLimit now) C ∧ (C → s.config.keyspaceNotificationsEnabled = true) := by
  have hboth : (s.enforceMemoryLimit now).config = s.config ∧
      ∃ C, Emits s (s.enforceMemoryLimit now) C ∧
        (C → s.config.keyspaceNotificationsEnabled = true) := by
    refine enforceMemoryLimit_induct
      (R := fun s t => t.config = s.config ∧
        ∃ C, Emits s t C ∧ (C → s.config.keyspaceNotificationsEnabled = true))
      (fun s => ⟨rfl, False, Emits.silent rfl, False.elim⟩) ?_ ?_ s
    · rintro s t u ⟨hcfg, C, hfirst, hon⟩ ⟨hcfg', D, hsecond, hon'⟩
      rw [hcfg] at hon'
      exact ⟨hcfg'.trans hcfg, C ∨ D, hfirst.trans hsecond, Or.rec hon hon'⟩
    · intro s lruKey rest _
      refine ⟨evictHead_config s now lruKey rest, ?_⟩
      unfold evictHead
      split
      · exact ⟨_, emitKeyspaceEvent_emits _ now .evicted lruKey, id⟩
      · exact ⟨False, Emits.silent rfl, False.elim⟩
  exact hboth.2

/-- A put emits its `set`, behind the evictions. -/
theorem setWithExpiry_emits (s : KvStore) (now : Nat) (key : String) (value : Value)
    (expiresAt : Option Nat) : Emits s (s.setWithExpiry now key value expiresAt).2
      (s.config.keyspaceNotificationsEnabled = true ∧ s.config.Valid key value ∧
        s.transactionQueue = none) := by
  by_cases hput : s.config.Valid key value ∧ s.transactionQueue = none
  · rw [setWithExpiry_put hput.1 hput.2]
    have hbounded : ∃ C, Emits s (if s.config.maxMemoryBytes > 0 ∧ s.config.lruEvictionEnabled then
        (s.insertEntry key ⟨value, expiresAt⟩ (estimateValueSize value)).enforceMemoryLimit now
        else s.insertEntry key ⟨value, expiresAt⟩ (estimateValueSize value)) C ∧
          (C → s.config.keyspaceNotificationsEnabled = true) := by
      split
      · exact enforceMemoryLimit_emits
          (s.insertEntry key ⟨value, expiresAt⟩ (estimateValueSize value)) now
      · exact ⟨False, Emits.silent rfl, False.elim⟩
    obtain ⟨C, hevicted, hon⟩ := hbounded
    refine (hevicted.trans (emitKeyspaceEvent_emits _ now .set key)).congr ?_
    have hcfg : (if s.config.maxMemoryBytes > 0 ∧ s.config.lruEvictionEnabled then
        (s.insertEntry key ⟨value, expiresAt⟩ (estimateValueSize value)).enforceMemoryLimit now
        else s.insertEntry key ⟨value, expiresAt⟩ (estimateValueSize value)).config = s.config := by
      split <;> simp
    rw [hcfg, and_iff_left hput, or_iff_right_of_imp hon]
  · obtain ⟨queue, hsame⟩ := setWithExpiry_unput now expiresAt hput
    rw [hsame]
    exact (Emits.silent rfl).congr (iff_of_false id fun h => hput h.2)

/-- Of an MSET the first pair decides: a put clears the way for the pairs behind it, and they come to
nothing if it is refused. -/
theorem mset_emits (now : Nat) (pairs : List (String × String)) :
    ∀ s : KvStore, Emits s (s.mset now pairs).2 (s.config.keyspaceNotificationsEnabled = true ∧
      (∃ p ∈ pairs.head?, s.config.Valid p.1 (.str p.2)) ∧ s.transactionQueue = none) := by
  induction pairs with
  | nil => exact fun s => (Emits.silent rfl).congr (by simp)
  | cons pair pairs ih =>
      intro s
      obtain ⟨key, value⟩ := pair
      rw [mset_cons_snd]
      split
      · next hvalid =>
          have hcfg : (s.set now key (.str value)).2.config = s.config := setWithExpiry_config
          have htx : (s.set now key (.str value)).2.inTransaction = s.inTransaction :=
            setWithExpiry_inTransaction
          have hqueue : (s.set now key (.str value)).2.transactionQueue = none ↔
              s.transactionQueue = none := by
            rw [inTransaction, inTransaction] at htx
            rw [← Option.not_isSome_iff_eq_none, htx, Option.not_isSome_iff_eq_none]
          have hrest := ih (s.set now key (.str value)).2
          rw [hcfg, hqueue] at hrest
          refine ((setWithExpiry_emits s now key (.str value) none).trans hrest).congr ?_
          simp only [List.head?_cons, Option.mem_some_iff, exists_eq_left', hvalid, true_and]
          exact or_iff_left_of_imp fun h => ⟨h.1, h.2.2⟩
      · next hrefused => exact (Emits.silent rfl).congr (by simp [hrefused])

/-! ## Deletes and expiries -/

theorem delete_emits (s : KvStore) (now : Nat) (key : String) :
    Emits s (s.delete now key).2 (s.config.keyspaceNotificationsEnabled = true ∧
      s.contents key ≠ none ∧ s.transactionQueue = none) := by
  unfold delete inTransaction contents queueOperation
  cases htx : s.transactionQueue with
  | some queue => exact (Emits.silent rfl).congr (by simp)
  | none =>
      cases hkey : s.store[key]? with
      | none => exact (Emits.silent rfl).congr (by simp)
      | some entry => exact (emitKeyspaceEvent_emits _ now .delete key).congr (by simp)

theorem expire_emits (s : KvStore) (now : Nat) (key : String) (ttl : Nat) :
    Emits s (s.expire now key ttl).2 (s.config.keyspaceNotificationsEnabled = true ∧
      ∃ entry ∈ s.contents key, entry.expired now = false) := by
  unfold expire contents
  cases hkey : s.store[key]? with
  | none => exact (Emits.silent rfl).congr (by simp)
  | some entry =>
      by_cases hexpired : entry.expired now = true
      · simp only [if_pos hexpired]
        exact (Emits.silent rfl).congr (by simp [hexpired])
      · simp only [if_neg hexpired]
        exact (emitKeyspaceEvent_emits _ now .set key).congr (by simp [hexpired])

theorem persist_emits (s : KvStore) (now : Nat) (key : String) :
    Emits s (s.persist now key).2 (s.config.keyspaceNotificationsEnabled = true ∧
      ∃ entry ∈ s.contents key, entry.expiresAt ≠ none) := by
  unfold persist contents
  cases hkey : s.store[key]? with
  | none => exact (Emits.silent rfl).congr (by simp)
  | some entry =>
      obtain ⟨value, expiresAt⟩ := entry
      cases expiresAt with
      | none => exact (Emits.silent rfl).congr (by simp)
      | some time => exact (emitKeyspaceEvent_emits _ now .set key).congr (by simp)

/-- An append reports the key that it creates. -/
theorem append_emits (s : KvStore) (now : Nat) (key value : String) :
    Emits s (s.append now key value).2 (s.config.keyspaceNotificationsEnabled = true ∧
      s.contents key = none ∧ s.config.Valid key (.str value) ∧ s.transactionQueue = none) := by
  cases hkey : s.store[key]? with
  | none =>
      rw [append_absent s key now value hkey]
      refine (setWithExpiry_emits s now key (.str value) none).congr ?_
      simp [contents, hkey]
  | some entry =>
      refine (Emits.silent ?_).congr (by simp [contents, hkey])
      unfold append
      rw [hkey]
      obtain ⟨old, expiresAt⟩ := entry
      cases old <;> rfl

end

end KvStore

/-- The call reports something on this store, where notifications are on. -/
def Write.Noted (s : KvStore) (now : Nat) : Write → Prop
  | set key value | setWithTtl key value _ | getset key value =>
      s.config.Valid key value ∧ s.transactionQueue = none
  | append key value =>
      s.contents key = none ∧ s.config.Valid key (.str value) ∧ s.transactionQueue = none
  | mset pairs => (∃ p ∈ pairs.head?, s.config.Valid p.1 (.str p.2)) ∧ s.transactionQueue = none
  | delete key => s.contents key ≠ none ∧ s.transactionQueue = none
  | expire key _ => ∃ entry ∈ s.contents key, entry.expired now = false
  | persist key => ∃ entry ∈ s.contents key, entry.expiresAt ≠ none
  | _ => False

namespace KvStore

/-- What a call adds to the queue. -/
theorem write_emits (rt : Runtime) (s : KvStore) (now : Nat) (w : Write) :
    Emits s (s.write rt now w).2 (s.config.keyspaceNotificationsEnabled = true ∧ w.Noted s now) := by
  cases w with
  | set key value => exact setWithExpiry_emits s now key value none
  | setWithTtl key value ttl => exact setWithExpiry_emits s now key value (checkedAdd now ttl)
  | getset key value =>
      simp only [write, reply_snd, getset_snd]
      exact setWithExpiry_emits s now key value none
  | append key value => exact append_emits s now key value
  | mset pairs => exact mset_emits now pairs s
  | delete key => exact delete_emits s now key
  | expire key ttl => exact expire_emits s now key ttl
  | persist key => exact persist_emits s now key
  | incr key | decr key | incrby key amount =>
      exact (Emits.silent (addToInt_pending s key _)).congr (by simp [Write.Noted])
  | lpush key values | rpush key values =>
      exact (Emits.silent (pushWith_pending s key _ values)).congr (by simp [Write.Noted])
  | lpop key | rpop key => exact (Emits.silent (popWith_pending s key _)).congr (by simp [Write.Noted])
  | hset key fields => exact (Emits.silent (hset_pending s key fields)).congr (by simp [Write.Noted])
  | hdel key fields => exact (Emits.silent (hdel_pending s key fields)).congr (by simp [Write.Noted])
  | hincrby key field amount =>
      exact (Emits.silent (addToField_pending s key _ _ _ _ field amount)).congr (by simp [Write.Noted])
  | hincrbyfloat key field amount =>
      exact (Emits.silent (addToField_pending s key _ _ _ _ field amount)).congr (by simp [Write.Noted])
  | pfadd key values =>
      exact (Emits.silent (pfadd_pending s key rt values)).congr (by simp [Write.Noted])
  | pfmerge destination sources =>
      exact (Emits.silent (pfmerge_pending s destination sources)).congr (by simp [Write.Noted])

/-- None of the calls reports anything, each at its turn. -/
def Unnoted (rt : Runtime) (s : KvStore) (calls : List (Nat × Write)) : Prop :=
  Guarded (fun s c => (s.write rt c.1 c.2).2)
    (fun s c => s.config.keyspaceNotificationsEnabled = true → ¬ c.2.Noted s c.1) s calls

/-- With notifications off nothing is reported. -/
theorem unnoted_of_off (rt : Runtime) (calls : List (Nat × Write)) :
    ∀ s : KvStore, s.config.keyspaceNotificationsEnabled = false → Unnoted rt s calls := by
  induction calls with
  | nil => exact fun _ _ => trivial
  | cons c calls ih =>
      intro s hoff
      refine ⟨fun hon => absurd hon (by simp [hoff]), ih _ ?_⟩
      rw [write_config, hoff]

theorem writes_emit (rt : Runtime) (calls : List (Nat × Write)) :
    ∀ s : KvStore, Emits s (s.writes rt calls) (¬ Unnoted rt s calls) := by
  induction calls with
  | nil => exact fun s => (Emits.silent rfl).congr (by simp [Unnoted])
  | cons c calls ih =>
      intro s
      refine ((write_emits rt s c.1 c.2).trans (ih _)).congr ?_
      simp only [Unnoted, Lib.Run.guarded_cons, not_and_or, Classical.not_imp, not_not]

end KvStore

end Daikon
