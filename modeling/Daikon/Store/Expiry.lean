/-
# Daikon.Store.Expiry -- which calls set the expiry of a key

Two calls count an expiry from their own clock: an accepted `set_with_ttl`, and an `expire` that finds
the key. Every other call keeps the expiry that it finds or leaves none (`write_expiry`).

The result is the step that the recovery of expiries rests on (`Daikon.Recovery.Expiry`): an expiry in the
store is the sum of a clock and a time to live of one call, and since then no call has touched it. What a
put drops and what a change in place keeps is read off the cells (`CellOp.Timeless`); PFADD and PFMERGE,
which have no cells, are looked at by themselves (`PutsAt.expiry`).

Whether a call sets an expiry depends on the store as well: an EXPIRE of a missing key sets none, and
neither does a SET that is refused or queued. `Write.setsExpiry` has both in it. It gives the time to live
and not the sum, since a sum with the clock that does not fit 64 bits leaves the key without an expiry.
-/
import Daikon.Store.Evict

namespace Daikon

open Lib.KeyedLog (run)

/-- The expiry in a map of entries. -/
def expiryIn (m : String → Option ValueWithTTL) (k : String) : Option Nat :=
  (m k).bind ValueWithTTL.expiresAt

/-- The expiry of a key of the store. -/
def KvStore.expiry (s : KvStore) (k : String) : Option Nat := expiryIn s.contents k

theorem Within.expiry {m' m : String → Option ValueWithTTL} (h : Within m' m) (k : String) :
    expiryIn m' k = none ∨ expiryIn m' k = expiryIn m k := by
  unfold expiryIn
  rcases h k with heq | hnone
  · exact .inr (by rw [heq])
  · exact .inl (by rw [hnone]; rfl)

/-- The time to live of a call. -/
def Write.ttlSecs : Write → Option Nat
  | setWithTtl _ _ ttl | expire _ ttl => some ttl
  | _ => none

/-- The time to live from which the call makes an expiry for the key. -/
def Write.setsExpiry (s : KvStore) (now : Nat) (k : String) : Write → Option Nat
  | setWithTtl key value ttl =>
      if k = key ∧ s.config.Valid key value ∧ s.inTransaction = false then some ttl else none
  | expire key ttl => if k = key ∧ (s.expire now key ttl).1 then some ttl else none
  | _ => none

theorem Write.setsExpiry_ttlSecs {w : Write} {s : KvStore} {now ttl : Nat} {k : String}
    (h : w.setsExpiry s now k = some ttl) : w.ttlSecs = some ttl := by
  cases w with
  | setWithTtl key value ttl' | expire key ttl' =>
      simp only [setsExpiry] at h
      split at h
      · exact h
      · cases h
  | _ => cases h

/-! ## Operations that make no expiry -/

/-- The operation keeps the expiry, or leaves none. -/
def CellOp.Timeless (op : CellOp) : Prop :=
  ∀ e, (op.onEntry e).bind ValueWithTTL.expiresAt = none ∨
    (op.onEntry e).bind ValueWithTTL.expiresAt = e.bind ValueWithTTL.expiresAt

namespace CellOp

theorem edit_timeless (f : Value → Value) (first : Option Value) : (edit f first).Timeless := by
  intro e
  cases e with
  | some entry => exact .inr rfl
  | none => cases first <;> exact .inl rfl

theorem assignIf_timeless (cfg : StoreConfig) (inTx : Bool) (key : String) (value : Value) :
    (assignIf cfg inTx key value none).Timeless := by
  unfold assignIf
  split
  · exact fun _ => .inl rfl
  · exact edit_timeless _ _

theorem assignAll_timeless (cfg : StoreConfig) (inTx : Bool) (pairs : List (String × String)) :
    ∀ c ∈ assignAll cfg inTx pairs, c.2.Timeless := by
  intro c hc
  obtain ⟨value, -, hop⟩ := mem_assignAll hc
  rw [hop]
  exact assignIf_timeless cfg inTx c.1 (.str value)

theorem pushList_timeless (cfg : StoreConfig) (push : List String → List String → List String)
    (key : String) (values : List String) : (pushList cfg push key values).Timeless := by
  unfold pushList
  split <;> exact edit_timeless _ _

theorem setFields_timeless (cfg : StoreConfig) (key : String) (fields : Fields) :
    (setFields cfg key fields).Timeless := by
  unfold setFields
  split <;> exact edit_timeless _ _

theorem addField_timeless {N : Type} (cfg : StoreConfig) (parse : String → Option N) (zero : N)
    (add : N → N → N) (show_ : N → String) (key field : String) (amount : N) :
    (addField cfg parse zero add show_ key field amount).Timeless := by
  unfold addField
  split <;> exact edit_timeless _ _

end CellOp

/-- Timeless operations make no expiry, however many there are. -/
theorem run_timeless {cells : List (String × CellOp)} (k : String) :
    ∀ {m : String → Option ValueWithTTL}, (∀ c ∈ cells, c.2.Timeless) →
      expiryIn (run (entryUpdates cells) m) k = none ∨
        expiryIn (run (entryUpdates cells) m) k = expiryIn m k := by
  induction cells with
  | nil => intro m _; exact .inr rfl
  | cons c cells ih =>
      intro m h
      have hone : expiryIn (Function.update m c.1 (c.2.onEntry (m c.1))) k = none ∨
          expiryIn (Function.update m c.1 (c.2.onEntry (m c.1))) k = expiryIn m k := by
        unfold expiryIn
        by_cases hk : k = c.1
        · subst hk
          rw [Function.update_self]
          exact h c (by simp) (m c.1)
        · rw [Function.update_of_ne hk]
          exact .inr rfl
      rcases ih (m := Function.update m c.1 (c.2.onEntry (m c.1)))
        fun d hd => h d (List.mem_cons_of_mem _ hd) with hnone | hkept
      · exact .inl hnone
      · rcases hone with hnone | hsame
        · exact .inl (hkept.trans hnone)
        · exact .inr (hkept.trans hsame)

/-- A call without a time to live makes no expiry. -/
theorem Write.cells_timeless (rt : Runtime) (cfg : StoreConfig) (inTx : Bool) (now : Nat) {w : Write}
    (h : w.ttlSecs = none) : ∀ c ∈ w.cells rt cfg inTx now, c.2.Timeless := by
  intro c hc
  cases w with
  | setWithTtl key value ttl | expire key ttl => cases h
  | pfadd key values => cases hc
  | pfmerge destination sources => cases hc
  | mset pairs => exact CellOp.assignAll_timeless cfg inTx pairs c hc
  | set key value | getset key value =>
      rw [List.mem_singleton.mp hc]
      exact CellOp.assignIf_timeless cfg inTx key value
  | delete key =>
      rw [List.mem_singleton.mp hc]
      cases inTx with
      | false => exact fun _ => .inl rfl
      | true => exact CellOp.edit_timeless _ _
  | persist key =>
      rw [List.mem_singleton.mp hc]
      exact fun e => by cases e <;> exact .inl rfl
  | lpush key values | rpush key values =>
      rw [List.mem_singleton.mp hc]
      exact CellOp.pushList_timeless cfg _ key values
  | hset key fields =>
      rw [List.mem_singleton.mp hc]
      exact CellOp.setFields_timeless cfg key fields
  | hincrby key field amount | hincrbyfloat key field amount =>
      rw [List.mem_singleton.mp hc]
      exact CellOp.addField_timeless cfg _ _ _ _ key field amount
  | incr key | decr key | incrby key amount | append key value | lpop key | rpop key
  | hdel key fields =>
      rw [List.mem_singleton.mp hc]
      exact CellOp.edit_timeless _ _

namespace KvStore

/-- What a call may leave as the expiry of a key: none, or the given one. -/
def LeavesExpiry (s' : KvStore) (k : String) (expected : Option Nat) : Prop :=
  s'.expiry k = none ∨ s'.expiry k = expected

theorem expiryIn_one (m : String → Option ValueWithTTL) (key : String) (op : CellOp) (k : String) :
    expiryIn (run (entryUpdates [(key, op)]) m) k
      = if k = key then (op.onEntry (m key)).bind ValueWithTTL.expiresAt else expiryIn m k := by
  show expiryIn (Function.update m key (op.onEntry (m key))) k = _
  unfold expiryIn
  by_cases hk : k = key
  · rw [if_pos hk, hk, Function.update_self]
  · rw [if_neg hk, Function.update_of_ne hk]

theorem setWithTtl_expiry (s : KvStore) (now : Nat) (key : String) (value : Value) (ttl : Nat)
    (k : String) :
    (s.setWithTtl now key value ttl).2.LeavesExpiry k
      (((Write.setWithTtl key value ttl).setsExpiry s now k).elim (s.expiry k) (checkedAdd now)) := by
  have hwithin := (setWithExpiry_within s now key value (checkedAdd now ttl)).expiry k
  rw [expiryIn_one] at hwithin
  simp only [Write.setsExpiry]
  by_cases hk : k = key
  · subst hk
    rw [if_pos rfl] at hwithin
    by_cases hput : s.config.Valid k value ∧ s.inTransaction = false
    · rw [CellOp.assignIf, if_pos hput] at hwithin
      rw [if_pos ⟨rfl, hput⟩]
      exact hwithin
    · rw [CellOp.assignIf, if_neg hput, CellOp.onEntry_nop] at hwithin
      rw [if_neg fun h => hput h.2]
      exact hwithin
  · rw [if_neg hk] at hwithin
    rw [if_neg fun h => hk h.1]
    exact hwithin

theorem expire_expiry (s : KvStore) (now : Nat) (key : String) (ttl : Nat) (k : String) :
    (s.expire now key ttl).2.expiry k
      = ((Write.expire key ttl).setsExpiry s now k).elim (s.expiry k) (checkedAdd now) := by
  have hother : k ≠ key → (s.expire now key ttl).2.expiry k = s.expiry k := by
    intro hk
    unfold expiry
    rw [(expire_moves s key now ttl).contents, expiryIn_one, if_neg hk]
  simp only [Write.setsExpiry]
  by_cases hk : k = key
  · subst hk
    unfold expire
    split
    · rw [if_neg (by simp)]
      rfl
    · split
      · rw [if_neg (by simp)]
        rfl
      · rw [if_pos ⟨rfl, rfl⟩]
        simp only [expiry, expiryIn, contents, emitKeyspaceEvent_store, Std.ExtTreeMap.getElem?_insert_self]
        rfl
  · rw [if_neg fun h => hk h.1]
    exact hother hk

/-- An entry that is put has no expiry, or that of the entry it replaces. -/
theorem PutsAt.expiry {s s' : KvStore} {key : String} (h : PutsAt s key s') (k : String) :
    s'.LeavesExpiry k (s.expiry k) := by
  by_cases hk : k = key
  · subst hk
    cases h with
    | nothing => exact .inr rfl
    | rewrite entry hentry =>
        simp only [LeavesExpiry, KvStore.expiry, expiryIn, contents, rewriteEntry_store,
          Std.ExtTreeMap.getElem?_insert_self]
        exact hentry
    | insert value size =>
        simp only [LeavesExpiry, KvStore.expiry, expiryIn, contents, insertEntry_store,
          Std.ExtTreeMap.getElem?_insert_self]
        exact .inl rfl
  · refine .inr ?_
    simp only [KvStore.expiry, expiryIn, h.contents_of_ne hk]

/-- The cells make no expiry, and eviction only takes one away. -/
theorem timeless_expiry (rt : Runtime) (s : KvStore) (now : Nat) (w : Write) (hkeyed : w.Keyed)
    (h : w.ttlSecs = none) (k : String) : (s.write rt now w).2.LeavesExpiry k (s.expiry k) := by
  have hcells := run_timeless k (m := s.contents)
    (Write.cells_timeless rt s.config s.inTransaction now h)
  rcases (write_within rt s now hkeyed).expiry k with hnone | hsame
  · exact .inl hnone
  · rcases hcells with hnone | hkept
    · exact .inl (hsame.trans hnone)
    · exact .inr (hsame.trans hkept)

/-- The step: after a call, a key has the expiry that the call has set, else the one that it had, or
it has none. -/
theorem write_expiry (rt : Runtime) (s : KvStore) (now : Nat) (w : Write) (k : String) :
    (s.write rt now w).2.LeavesExpiry k
      ((w.setsExpiry s now k).elim (s.expiry k) (checkedAdd now)) := by
  cases w with
  | setWithTtl key value ttl => exact setWithTtl_expiry s now key value ttl k
  | expire key ttl => exact .inr (expire_expiry s now key ttl k)
  | pfadd key values => exact (pfadd_puts s rt key values).expiry k
  | pfmerge destination sources => exact (pfmerge_puts s destination sources).expiry k
  | _ =>
      refine timeless_expiry rt s now _ ?_ ?_ k
      · trivial
      · rfl

end KvStore

end Daikon
