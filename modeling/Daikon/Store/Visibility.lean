/-
# Daikon.Store.Visibility -- who sees an entry, and until when

The expiry test is written out in six places. Five of them are in reads, and they agree (`reads_agree`): an
entry is there through the second of its expiry. The sixth is that of `cleanup_expired`, which takes an
entry away in that second. So a clean-up goes unseen if and only if no entry expires in the second it is
made (`cleanup_unseen_iff`).

The reads that agree are `get` with `exists` and `mget`, which go through it, `keys`, `iter` and the two for
the remaining time. They are compared as predicates of a key at a clock: present for one, present for all.
The text of the answers is part of it where it encodes presence, as -2 and -1 do.

The remaining time is cut at the largest `i64`, by an explicit minimum in the source. So a finite expiry may
be reported as the largest number that fits, and is then not the difference of the expiry and the clock
(`far_expiry_capped`).
-/
import Daikon.Store.Expired
import Daikon.Store.Glob
import Daikon.Store.Text

namespace Daikon

open Lib.Glob (words mem_words_star mem_words_nil)

namespace KvStore

/-- What `iter` yields. -/
def iter (s : KvStore) (now : Nat) : List (String × Value) :=
  (s.store.toList.filter fun p => !p.2.expired now).map fun p => (p.1, p.2.value)

/-- `get` returns a value. -/
def Seen (s : KvStore) (now : Nat) (key : String) : Prop := ∃ value, s.get now key = some value

section

variable {s : KvStore} {now : Nat} {key : String}

/-! ## The reads -/

theorem get_eq_some_iff {value : Value} : s.get now key = some value ↔
    ∃ entry, s.contents key = some entry ∧ entry.expired now = false ∧ entry.value = value := by
  unfold get contents
  cases s.store[key]? with
  | none => simp
  | some entry => cases entry.expired now <;> simp

theorem seen_iff : s.Seen now key ↔
    ∃ entry, s.contents key = some entry ∧ entry.expired now = false := by
  constructor
  · rintro ⟨value, hget⟩
    obtain ⟨entry, hentry, hlive, -⟩ := get_eq_some_iff.mp hget
    exact ⟨entry, hentry, hlive⟩
  · rintro ⟨entry, hentry, hlive⟩
    exact ⟨entry.value, get_eq_some_iff.mpr ⟨entry, hentry, hlive, rfl⟩⟩

theorem exists_iff : s.exists_ now key = true ↔ s.Seen now key := by
  unfold exists_ Seen
  rw [Option.isSome_iff_exists]

theorem mem_iter_iff {value : Value} : (key, value) ∈ s.iter now ↔ s.get now key = some value := by
  unfold iter
  rw [get_eq_some_iff]
  constructor
  · intro h
    obtain ⟨⟨k, entry⟩, hp, heq⟩ := List.mem_map.mp h
    cases heq
    obtain ⟨hentry, hlive⟩ := mem_selected_iff.mp hp
    exact ⟨entry, hentry, by simpa using hlive, rfl⟩
  · rintro ⟨entry, hentry, hlive, rfl⟩
    exact List.mem_map.mpr ⟨(key, entry), mem_selected_iff.mpr ⟨hentry, by simp [hlive]⟩, rfl⟩

/-- `keys` lists the keys that `get` finds and that are words of the pattern. -/
theorem mem_keysMatching_iff {pattern : String} :
    key ∈ s.keysMatching now pattern ↔ s.Seen now key ∧ key.toList ∈ words (globPlaces pattern) := by
  unfold keysMatching globPlaces
  rw [← matchRecursive_iff, seen_iff, mem_selectedKeys_iff, ← exists_and_right]
  refine exists_congr fun entry => ?_
  rw [and_assoc, Bool.and_eq_true, Bool.not_eq_true']
  rfl

theorem mem_words_any_text (text : List Char) : text ∈ words (globPlaces "*") :=
  mem_words_star.mpr ⟨[], List.nil_suffix, mem_words_nil.mpr rfl⟩

theorem mem_mget_iff {keys : List String} {i : Nat} (hi : keys[i]? = some key) :
    (∃ value, (s.mget now keys)[i]? = some (some value)) ↔ s.Seen now key := by
  unfold mget Seen
  rw [List.getElem?_map, hi]
  simp

theorem ttlSeconds_absent (h : ¬ s.Seen now key) : s.ttlSeconds now key = -2 := by
  unfold ttlSeconds
  cases hkey : s.store[key]? with
  | none => rfl
  | some entry =>
      obtain ⟨value, expiresAt⟩ := entry
      cases expiresAt with
      | none => exact absurd (seen_iff.mpr ⟨_, hkey, rfl⟩) h
      | some exp =>
          have hpast : now > exp := by
            by_contra hlive
            exact h (seen_iff.mpr ⟨_, hkey, decide_eq_false hlive⟩)
          simp [hpast]

theorem ttlSeconds_lasting {value : Value} (hkey : s.contents key = some ⟨value, none⟩) :
    s.ttlSeconds now key = -1 := by
  unfold ttlSeconds
  rw [show s.store[key]? = some ⟨value, none⟩ from hkey]

theorem ttlSeconds_remaining {value : Value} {exp : Nat} (hkey : s.contents key = some ⟨value, some exp⟩)
    (hlive : now ≤ exp) : s.ttlSeconds now key = min ((exp : Int) - now) (2 ^ 63 - 1) := by
  unfold ttlSeconds
  rw [show s.store[key]? = some ⟨value, some exp⟩ from hkey]
  simp only [gt_iff_lt, if_neg (Nat.not_lt.mpr hlive)]
  omega

/-- A key that is seen has no expiry, or one that has not passed. -/
theorem seen_cases (h : s.Seen now key) : ∃ value, s.contents key = some ⟨value, none⟩ ∨
    ∃ exp, s.contents key = some ⟨value, some exp⟩ ∧ now ≤ exp := by
  obtain ⟨⟨value, expiresAt⟩, hentry, hlive⟩ := seen_iff.mp h
  cases expiresAt with
  | none => exact ⟨value, .inl hentry⟩
  | some exp => exact ⟨value, .inr ⟨exp, hentry, Nat.not_lt.mp (of_decide_eq_false hlive)⟩⟩

/-- The remaining time is not negative where the key is seen and has an expiry, `-1` where it has none,
and `-2` where it is not seen. -/
theorem ttlSeconds_cases : ¬ s.Seen now key ∧ s.ttlSeconds now key = -2 ∨
    (∃ value, s.contents key = some ⟨value, none⟩) ∧ s.ttlSeconds now key = -1 ∨
    (∃ value exp, s.contents key = some ⟨value, some exp⟩ ∧ now ≤ exp) ∧ 0 ≤ s.ttlSeconds now key := by
  by_cases hseen : s.Seen now key
  · right
    obtain ⟨value, hlasting | ⟨exp, hentry, hlive⟩⟩ := seen_cases hseen
    · exact .inl ⟨⟨value, hlasting⟩, ttlSeconds_lasting hlasting⟩
    · refine .inr ⟨⟨value, exp, hentry, hlive⟩, ?_⟩
      rw [ttlSeconds_remaining hentry hlive]
      omega
  · exact .inl ⟨hseen, ttlSeconds_absent hseen⟩

theorem ttlSeconds_ne_iff : s.ttlSeconds now key ≠ -2 ↔ s.Seen now key := by
  rcases @ttlSeconds_cases s now key with
    ⟨hunseen, httl⟩ | ⟨⟨value, hentry⟩, httl⟩ | ⟨⟨value, exp, hentry, hlive⟩, httl⟩
  · exact iff_of_false (by omega) hunseen
  · exact iff_of_true (by omega) (seen_iff.mpr ⟨_, hentry, rfl⟩)
  · exact iff_of_true (by omega) (seen_iff.mpr ⟨_, hentry, decide_eq_false (by omega)⟩)

theorem pttlMillis_ne_iff : s.pttlMillis now key ≠ -2 ↔ s.Seen now key := by
  rw [← ttlSeconds_ne_iff]
  unfold pttlMillis
  simp only
  split <;> omega

/-- `-1` stands for no expiry. -/
theorem ttlSeconds_lasting_iff :
    s.ttlSeconds now key = -1 ↔ ∃ value, s.contents key = some ⟨value, none⟩ := by
  constructor
  · intro h
    rcases @ttlSeconds_cases s now key with
      ⟨-, httl⟩ | ⟨hlasting, -⟩ | ⟨-, httl⟩
    · omega
    · exact hlasting
    · omega
  · exact fun ⟨value, hlasting⟩ => ttlSeconds_lasting hlasting

end

/-- All reads say the same about a key. -/
structure ReadsAgree (s : KvStore) (now : Nat) (key : String) : Prop where
  exists_ : s.exists_ now key = true ↔ s.Seen now key
  keys : key ∈ s.keysMatching now "*" ↔ s.Seen now key
  iter : (∃ value, (key, value) ∈ s.iter now) ↔ s.Seen now key
  mget : ∀ (keys : List String) (i : Nat), keys[i]? = some key →
    ((∃ value, (s.mget now keys)[i]? = some (some value)) ↔ s.Seen now key)
  ttl : s.ttlSeconds now key ≠ -2 ↔ s.Seen now key
  pttl : s.pttlMillis now key ≠ -2 ↔ s.Seen now key
  /-- `-1` stands for a key that is seen and has no expiry. -/
  lasting : s.ttlSeconds now key = -1 ↔ ∃ value, s.contents key = some ⟨value, none⟩
  /-- Otherwise it is the remaining time, as far as an `i64` goes. -/
  remaining : ∀ value exp, s.contents key = some ⟨value, some exp⟩ → s.Seen now key →
    now ≤ exp ∧ s.ttlSeconds now key = min ((exp : Int) - now) (2 ^ 63 - 1)
  millis : s.pttlMillis now key = if s.ttlSeconds now key < 0 then s.ttlSeconds now key
    else min (s.ttlSeconds now key * 1000) (2 ^ 63 - 1)

/-- At every clock, all reads agree on which keys are there, and `exists_many` counts these. -/
theorem reads_agree (s : KvStore) (now : Nat) : (∀ key, s.ReadsAgree now key) ∧
    ∀ keys, s.existsMany now keys = keys.countP fun key => (s.get now key).isSome := by
  refine ⟨fun key => ?_, fun keys => rfl⟩
  constructor
  · exact exists_iff
  · exact mem_keysMatching_iff.trans (and_iff_left (mem_words_any_text key.toList))
  · simp only [mem_iter_iff, Seen]
  · exact fun keys i hi => mem_mget_iff hi
  · exact ttlSeconds_ne_iff
  · exact pttlMillis_ne_iff
  · exact ttlSeconds_lasting_iff
  · intro value exp hentry hseen
    obtain ⟨entry, hentry', hlive⟩ := seen_iff.mp hseen
    rw [hentry] at hentry'
    cases hentry'
    have hnow : now ≤ exp := Nat.not_lt.mp (of_decide_eq_false hlive)
    exact ⟨hnow, ttlSeconds_remaining hentry hnow⟩
  · rfl

/-- A key with the largest expiry, 1.7 billion seconds after the epoch. -/
def farExpiry : KvStore :=
  (new.setWithTtl 1700000000 "k" (.str "v") (2 ^ 64 - 1 - 1700000000)).2

/-- The remaining time does not fit an `i64`, and the largest one is returned. -/
theorem far_expiry_capped :
    farExpiry.contents "k" = some ⟨.str "v", some (2 ^ 64 - 1)⟩ ∧
      farExpiry.Seen 1700000000 "k" ∧
      farExpiry.ttlSeconds 1700000000 "k" = 2 ^ 63 - 1 ∧
      farExpiry.ttlSeconds 1700000000 "k" ≠ (2 ^ 64 - 1) - 1700000000 := by
  have hentry : farExpiry.contents "k" = some ⟨.str "v", some (2 ^ 64 - 1)⟩ := by decide +kernel
  have httl := @ttlSeconds_remaining _ 1700000000 _ _ _ hentry (by decide)
  refine ⟨hentry, seen_iff.mpr ⟨_, hentry, by decide⟩, ?_, ?_⟩ <;> omega

/-! ## The clean-up -/

/-- No read at this clock tells whether a clean-up was made at it. -/
def CleanupUnseen (s : KvStore) (now : Nat) : Prop :=
  (∀ r : Read, (s.cleanupExpired now).2.read now r = s.read now r) ∧
    (s.cleanupExpired now).2.iter now = s.iter now

section

variable {s : KvStore} {now : Nat}

theorem cleanupExpired_store (s : KvStore) (now : Nat) :
    (s.cleanupExpired now).2.store = s.store.filter fun _ entry => !entry.due now := by
  apply Std.ExtTreeMap.ext_getElem?
  intro k
  have hcell : (s.cleanupExpired now).2.store[k]? = if k ∈ s.dueKeys now then none else s.contents k :=
    congrFun (cleanupExpired_contents s now) k
  rw [hcell, Std.ExtTreeMap.getElem?_filter']
  show _ = (s.contents k).filter _
  cases hk : s.contents k with
  | none => simp
  | some entry =>
      have hmem : k ∈ s.dueKeys now ↔ entry.due now = true := by
        rw [mem_dueKeys_iff, hk]
        simp
      cases hdue : entry.due now <;> simp [hmem, hdue, Option.filter]

/-- The collector draws the line of the reads but for the second of the expiry itself. -/
theorem due_eq_expired {entry : ValueWithTTL} (h : entry.expiresAt ≠ some now) :
    entry.due now = entry.expired now := by
  unfold ValueWithTTL.due ValueWithTTL.expired
  cases hexp : entry.expiresAt with
  | none => rfl
  | some exp =>
      have hne : exp ≠ now := fun heq => h (hexp.trans (congrArg some heq))
      simp only [decide_eq_decide]
      omega

theorem due_of_expired {entry : ValueWithTTL} (h : entry.expired now = true) : entry.due now = true := by
  by_cases hexp : entry.expiresAt = some now
  · unfold ValueWithTTL.due
    simp [hexp]
  · rw [due_eq_expired hexp, h]

theorem read_store {t : KvStore} (h : t.store = s.store) (r : Read) : t.read now r = s.read now r := by
  obtain ⟨store, stats, config, lruOrder, queue, events⟩ := s
  obtain rfl : t.store = store := h
  cases r <;> rfl

theorem iter_purge (s : KvStore) (now : Nat) : (s.purge now).iter now = s.iter now := by
  unfold iter
  show ((s.store.filter fun _ entry => !entry.expired now).toList.filter _).map _ = _
  rw [Std.ExtTreeMap.toList_filter, List.filter_filter]
  congr 1
  apply List.filter_congr
  rintro ⟨k, entry⟩ _
  exact Bool.and_self _

/-- A clean-up that finds no entry in its last second removes what the reads hide. -/
theorem cleanupExpired_purge (h : ∀ key entry, s.contents key = some entry → entry.expiresAt ≠ some now) :
    (s.cleanupExpired now).2.store = (s.purge now).store := by
  rw [cleanupExpired_store]
  apply Std.ExtTreeMap.ext_getElem?
  intro k
  show _ = (s.store.filter fun _ entry => !entry.expired now)[k]?
  rw [Std.ExtTreeMap.getElem?_filter', Std.ExtTreeMap.getElem?_filter']
  cases hk : s.store[k]? with
  | none => rfl
  | some entry => simp only [Option.filter, due_eq_expired (h k entry hk)]

theorem cleanupExpired_count (s : KvStore) (now : Nat) :
    (s.cleanupExpired now).1 + (s.cleanupExpired now).2.store.size = s.store.size := by
  have hcount : (s.cleanupExpired now).1 = (s.dueKeys now).length := rfl
  rw [hcount, cleanupExpired_store, ← Std.ExtTreeMap.length_toList, Std.ExtTreeMap.toList_filter,
    ← Std.ExtTreeMap.length_toList, dueKeys, List.length_map, ← List.countP_eq_length_filter,
    ← List.countP_eq_length_filter, List.length_eq_countP_add_countP (fun p => p.2.due now)]
  simp

end

/-- A clean-up is unseen if and only if no entry expires in the second it is made. It removes all that
reads take for expired, and counts what it removes. -/
theorem cleanup_unseen_iff (s : KvStore) (now : Nat) :
    (s.CleanupUnseen now ↔
      ∀ key entry, s.contents key = some entry → entry.expiresAt ≠ some now) ∧
    (∀ key entry, s.contents key = some entry → entry.expired now = true →
      (s.cleanupExpired now).2.contents key = none) ∧
    (s.cleanupExpired now).1 + (s.cleanupExpired now).2.store.size = s.store.size := by
  have hgone : ∀ key entry, s.contents key = some entry → entry.due now = true →
      (s.cleanupExpired now).2.contents key = none := by
    intro key entry hentry hdue
    rw [cleanupExpired_contents]
    exact if_pos (mem_dueKeys_iff.mpr ⟨entry, hentry, hdue⟩)
  refine ⟨⟨?_, ?_⟩, ?_, cleanupExpired_count s now⟩
  · rintro ⟨hreads, -⟩ key entry hentry hlast
    have hlive : entry.expired now = false := by simp [ValueWithTTL.expired, hlast]
    have hdue : entry.due now = true := by simp [ValueWithTTL.due, hlast]
    have hbefore : s.get now key = some entry.value := get_eq_some_iff.mpr ⟨entry, hentry, hlive, rfl⟩
    have hafter : (s.cleanupExpired now).2.get now key = none := by
      unfold get
      rw [show (s.cleanupExpired now).2.store[key]? = none from hgone key entry hentry hdue]
      rfl
    have hsame := hreads (.get key)
    simp [read, hbefore, hafter] at hsame
  · intro h
    have hpurge := cleanupExpired_purge h
    constructor
    · exact fun r => (read_store hpurge r).trans (read_purge s now r)
    · rw [← iter_purge s]
      unfold iter
      rw [hpurge]
  · exact fun key entry hentry hexpired => hgone key entry hentry (due_of_expired hexpired)

/-- A key whose time to live is zero. -/
def lastSecond : KvStore := (new.setWithTtl 5 "k" (.str "v") 0).2

/-- A clean-up takes away what a read at the same clock shows. -/
theorem cleanup_seen : lastSecond.get 5 "k" = some (.str "v") ∧
    (lastSecond.cleanupExpired 5).2.get 5 "k" = none ∧ ¬ lastSecond.CleanupUnseen 5 := by
  have hentry : lastSecond.contents "k" = some ⟨.str "v", some 5⟩ := by decide +kernel
  have hbefore : lastSecond.get 5 "k" = some (.str "v") := by decide +kernel
  have hafter : (lastSecond.cleanupExpired 5).2.get 5 "k" = none := by decide +kernel
  refine ⟨hbefore, hafter, fun h => ?_⟩
  have hsame := h.1 (.get "k")
  simp [read, hbefore, hafter] at hsame

end KvStore

end Daikon
