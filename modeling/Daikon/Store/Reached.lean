/-
# Daikon.Store.Reached -- the keys that calls bring within reach of the eviction loop

A call brings a key into the recency list, or takes it out of the store, exactly if it `Reaches` it;
`writes_tracked` says what that comes to over a list of calls.

A store that was read back from a snapshot has an empty recency list. `KvStore.ReachedBy` is the condition
under which a key of it is found by the eviction again after some calls, and it is exact: a call of another
kind, one that is refused, or one that finds a value of another type, leaves the key where it was.

Of an EXPIRE or a PERSIST it reaches nothing, since neither moves its key, although both look the key up; of
a hash or list operation it reaches the key where the value has the type, and of a PFMERGE the destination
where the merge is accepted. The condition is on the call and the store before it, so a list of calls is
followed by `ReachedBy` from store to store.
-/
import Daikon.Store.Touch

namespace Daikon

/-- The call of a store without an open transaction is accepted and moves the key to the recent end
of the list, or removes it. A change of the expiry does neither. -/
def Write.Reaches (s : KvStore) (k : String) : Write → Prop
  | set key value | setWithTtl key value _ | getset key value => k = key ∧ s.config.Valid key value
  | delete key => k = key
  | incr key | decr key | incrby key _ => k = key ∧ s.Holds key "Int"
  | append key _ => k = key ∧ s.Holds key "Str"
  | mset pairs => k ∈ (pairs.takeWhile fun p => s.config.Valid p.1 (.str p.2)).map Prod.fst
  | expire _ _ | persist _ => False
  | pfadd key values => k = key ∧ s.config.ValidKey key ∧ values ≠ [] ∧ s.Holds key "HyperLogLog"
  | pfmerge destination sources => k = destination ∧ ∃ count, (s.pfmerge destination sources).1 = .ok count
  | lpush key _ | rpush key _ => k = key ∧ s.config.ValidKey key ∧ s.Holds key "List"
  | lpop key | rpop key => k = key ∧ ∃ first rest, s.values key = some (.list (first :: rest))
  | hset key _ | hincrby key _ _ | hincrbyfloat key _ _ =>
      k = key ∧ s.config.ValidKey key ∧ s.Holds key "Hash"
  | hdel key _ => k = key ∧ s.Holds key "Hash"

namespace KvStore

/-! ## A call reaches what it puts -/

section

variable {s : KvStore} {key k type : String} {c : Prop}

theorem mem_keyIf_iff [Decidable c] : k ∈ keyIf c key ↔ k = key ∧ c := by
  unfold keyIf
  split <;> simp [*]

theorem mem_putKey_iff {value : Value} (htx : s.inTransaction = false) :
    k ∈ s.putKey key value ↔ k = key ∧ s.config.Valid key value := by
  have hnone : s.transactionQueue = none := by simpa [inTransaction] using htx
  have hput : k ∈ s.putKey key value ↔ k = key ∧ s.config.Valid key value ∧ s.transactionQueue = none :=
    mem_keyIf_iff
  rw [hput, and_iff_left hnone]

/-- To put a free key, which is tracked, changes nothing. -/
theorem takes_or_tracked : (k = key ∧ c ∧ s.Takes key type) ∨ s.Tracked k
    ↔ (k = key ∧ c ∧ s.Holds key type) ∨ s.Tracked k := by
  constructor
  · rintro (⟨rfl, hc, hfree | hholds⟩ | h)
    · exact .inr (tracked_of_absent hfree)
    · exact .inl ⟨rfl, hc, hholds⟩
    · exact .inr h
  · rintro (⟨rfl, hc, hholds⟩ | h)
    · exact .inl ⟨rfl, hc, .inr hholds⟩
    · exact .inr h

theorem append_or_tracked (value : String) (htx : s.inTransaction = false) :
    k ∈ (Write.append key value).puts s ∨ s.Tracked k
      ↔ (k = key ∧ s.Holds key "Str") ∨ s.Tracked k := by
  rw [Write.puts]
  by_cases hfree : s.contents key = none
  · have habsent : s.Tracked key := tracked_of_absent hfree
    rw [if_pos hfree, mem_putKey_iff htx]
    constructor
    · rintro (⟨rfl, -⟩ | h)
      · exact .inr habsent
      · exact .inr h
    · rintro (⟨rfl, -⟩ | h)
      · exact .inr habsent
      · exact .inr h
  · rw [if_neg hfree, mem_keyIf_iff]

theorem isOk_iff {ε α : Type} {r : Except ε α} : r.isOk = true ↔ ∃ a, r = .ok a := by
  cases r <;> simp [Except.isOk, Except.toBool]

theorem holds_nonempty_iff : s.Holds key "List" ∧ s.values key ≠ some (.list [])
    ↔ ∃ first rest, s.values key = some (.list (first :: rest)) := by
  unfold Holds values contents
  cases hkey : s.store[key]? with
  | none => simp
  | some entry =>
      obtain ⟨v, expiresAt⟩ := entry
      cases v with
      | list items => cases items <;> simp [Value.typeName]
      | _ => simp [Value.typeName]

/-- Of the keys that were not tracked, a call puts those it reaches. -/
theorem puts_or_tracked {w : Write} (htx : s.inTransaction = false) (hw : ∀ key, w ≠ .delete key) :
    k ∈ w.puts s ∨ s.Tracked k ↔ w.Reaches s k ∨ s.Tracked k := by
  have hnone : s.transactionQueue = none := by simpa [inTransaction] using htx
  cases w with
  | set key value | setWithTtl key value ttl | getset key value =>
      exact or_congr_left (mem_putKey_iff htx)
  | delete key => exact absurd rfl (hw key)
  | append key value => exact append_or_tracked value htx
  | mset pairs => rw [Write.puts, if_pos hnone, Write.Reaches]
  | incr key | decr key | incrby key amount => exact or_congr_left mem_keyIf_iff
  | expire key ttl | persist key => exact or_congr_left (iff_of_false List.not_mem_nil id)
  | pfadd key values =>
      have hput := @takes_or_tracked s key k "HyperLogLog" (s.config.ValidKey key ∧ values ≠ [])
      rw [and_assoc, and_assoc] at hput
      rw [Write.puts, mem_keyIf_iff, hput, Write.Reaches]
  | pfmerge destination sources =>
      rw [Write.puts, mem_keyIf_iff, Write.Reaches, isOk_iff]
  | lpush key values | rpush key values => rw [Write.puts, mem_keyIf_iff, takes_or_tracked, Write.Reaches]
  | lpop key | rpop key => rw [Write.puts, mem_keyIf_iff, holds_nonempty_iff, Write.Reaches]
  | hset key fields | hincrby key field amount | hincrbyfloat key field amount =>
      rw [Write.puts, mem_keyIf_iff, takes_or_tracked, Write.Reaches]
  | hdel key fields => exact or_congr_left mem_keyIf_iff

end

/-- After a call, the key is tracked if it was before or the call reaches it. -/
theorem write_tracked (rt : Runtime) {s : KvStore} (now : Nat) (w : Write) {k : String}
    (htx : s.inTransaction = false) :
    (s.write rt now w).2.Tracked k ↔ w.Reaches s k ∨ s.Tracked k := by
  by_cases hw : ∀ key, w ≠ .delete key
  · rw [(write_records rt s now hw).tracked, puts_or_tracked htx hw]
  · obtain ⟨key, hkey⟩ := not_forall.mp hw
    obtain rfl := not_not.mp hkey
    exact delete_tracked now htx

/-! ## Lists of calls -/

/-- One of the calls reaches the key, at its turn. -/
def ReachedBy (rt : Runtime) (k : String) : List (Nat × Write) → KvStore → Prop
  | [], _ => False
  | c :: calls, s => c.2.Reaches s k ∨ ReachedBy rt k calls (s.write rt c.1 c.2).2

theorem writes_tracked (rt : Runtime) {k : String} (calls : List (Nat × Write)) :
    ∀ {s : KvStore}, s.inTransaction = false →
      ((s.writes rt calls).Tracked k ↔ ReachedBy rt k calls s ∨ s.Tracked k) := by
  induction calls with
  | nil => intro s _; simp [ReachedBy]
  | cons c calls ih =>
      intro s htx
      have htx' : (s.write rt c.1 c.2).2.inTransaction = false := by
        rw [write_inTransaction]
        exact htx
      rw [writes_cons, ih htx', write_tracked rt c.1 c.2 htx, ReachedBy]
      tauto

theorem writes_config (rt : Runtime) (calls : List (Nat × Write)) :
    ∀ s : KvStore, (s.writes rt calls).config = s.config := by
  induction calls with
  | nil => exact fun s => rfl
  | cons c calls ih => exact fun s => (ih _).trans (write_config rt s c.1 c.2)

end KvStore

end Daikon
