/-
# Daikon.Store.Local -- calls that see and change their own keys only

Without an open transaction and without eviction, a call goes by the entries of the keys that it names and
by the limits, and it changes no other entry. So on two stores that agree on a set of keys, a call that
names keys of the set returns the same and leaves stores that agree on the set (`write_local`), and a call
that names none of them may be left out on one side (`write_apart`).

Two stores are compared on a set of keys, and the set is closed under what the calls name. The byte counter
is not compared: it depends on all keys, and without eviction nothing reads it. An open transaction is
excluded because it makes one queue of the calls of all clients, and the eviction because it chooses among
all keys; either is a way in which clients that use different keys do meet.

These two lemmas are the unwinding conditions for the server (`Daikon.Api.Noninterference`), once for a call
of the observer and once for a call of somebody else.
-/
import Daikon.Store.Reads
import Daikon.Store.Refine
import Daikon.Wal.Keys

namespace Daikon

namespace KvStore

/-- No transaction is open, and nothing is evicted. -/
structure Steady (s : KvStore) : Prop where
  idle : s.transactionQueue = none
  room : s.config.maxMemoryBytes = 0 ∨ s.config.lruEvictionEnabled = false

/-- The same entries under the keys, and the same limits. -/
structure SameOn (K : Set String) (s t : KvStore) : Prop where
  entry : ∀ k ∈ K, s.store[k]? = t.store[k]?
  maxKeySize : s.config.maxKeySize = t.config.maxKeySize
  maxValueSize : s.config.maxValueSize = t.config.maxValueSize

/-- The same answer, and stores that are the same on the keys. -/
def Alike {α : Type} (K : Set String) (r r' : α × KvStore) : Prop := r.1 = r'.1 ∧ SameOn K r.2 r'.2

theorem Alike.split {α : Type} {K : Set String} {r r' : α × KvStore} (h : Alike K r r') :
    ∃ answer s t, r = (answer, s) ∧ r' = (answer, t) ∧ SameOn K s t := by
  obtain ⟨answer, s⟩ := r
  obtain ⟨answer', t⟩ := r'
  obtain ⟨rfl, hstores⟩ := h
  exact ⟨answer, s, t, rfl, rfl, hstores⟩

theorem Steady.inTransaction {s : KvStore} (h : s.Steady) : s.inTransaction = false := by
  rw [KvStore.inTransaction, h.idle]
  rfl

theorem Steady.write {s : KvStore} (h : s.Steady) (rt : Runtime) (now : Nat) (w : Write) :
    (s.write rt now w).2.Steady := by
  obtain ⟨hconfig, htx⟩ := write_frame rt s now w
  refine ⟨?_, by rw [hconfig]; exact h.room⟩
  rw [h.inTransaction] at htx
  exact Option.not_isSome_iff_eq_none.mp (by rw [← KvStore.inTransaction, htx]; simp)

theorem Steady.fits {s : KvStore} (h : s.Steady) (bytes : Nat) : s.Fits bytes := by
  rcases h.room with hcap | hlru
  · exact .inl hcap
  · exact .inr (.inl hlru)

variable {K : Set String} {s t : KvStore}

namespace SameOn

theorem refl (K : Set String) (s : KvStore) : SameOn K s s := ⟨fun _ _ => rfl, rfl, rfl⟩

theorem symm (h : SameOn K s t) : SameOn K t s :=
  ⟨fun k hk => (h.entry k hk).symm, h.maxKeySize.symm, h.maxValueSize.symm⟩

theorem trans {u : KvStore} (h : SameOn K s t) (h' : SameOn K t u) : SameOn K s u :=
  ⟨fun k hk => (h.entry k hk).trans (h'.entry k hk), h.maxKeySize.trans h'.maxKeySize,
    h.maxValueSize.trans h'.maxValueSize⟩

theorem mono {K' : Set String} (h : SameOn K s t) (hK : K' ⊆ K) : SameOn K' s t :=
  ⟨fun k hk => h.entry k (hK hk), h.maxKeySize, h.maxValueSize⟩

/-- Stores with the same maps and limits as two that agree. -/
theorem congr {s' t' : KvStore} (h : SameOn K s t) (hs : s'.store = s.store) (ht : t'.store = t.store)
    (hs' : s'.config = s.config) (ht' : t'.config = t.config) : SameOn K s' t' :=
  ⟨fun k hk => by rw [hs, ht]; exact h.entry k hk, by rw [hs', ht']; exact h.maxKeySize,
    by rw [hs', ht']; exact h.maxValueSize⟩

theorem validateKey (h : SameOn K s t) (key : String) : s.validateKey key = t.validateKey key := by
  unfold KvStore.validateKey
  rw [h.maxKeySize]

theorem validateValue (h : SameOn K s t) (value : Value) : s.validateValue value = t.validateValue value := by
  unfold KvStore.validateValue
  rw [h.maxValueSize]

/-- Both have put the same entry, and kept their limits. -/
theorem insert {s' t' : KvStore} (h : SameOn K s t) (key : String) (entry : ValueWithTTL)
    (hs : s'.store = s.store.insert key entry) (ht : t'.store = t.store.insert key entry)
    (hs' : s'.config = s.config) (ht' : t'.config = t.config) : SameOn K s' t' := by
  refine ⟨fun k hk => ?_, by rw [hs', ht']; exact h.maxKeySize, by rw [hs', ht']; exact h.maxValueSize⟩
  rw [hs, ht, Std.ExtTreeMap.getElem?_insert, Std.ExtTreeMap.getElem?_insert, h.entry k hk]

theorem rewriteEntry (h : SameOn K s t) (key : String) (entry : ValueWithTTL) :
    SameOn K (s.rewriteEntry key entry) (t.rewriteEntry key entry) :=
  h.insert key entry rfl rfl rfl rfl

theorem insertEntry (h : SameOn K s t) (key : String) (entry : ValueWithTTL) (size : Nat) :
    SameOn K (s.insertEntry key entry size) (t.insertEntry key entry size) :=
  h.insert key entry rfl rfl rfl rfl

theorem emit (h : SameOn K s t) (now : Nat) (kind : KeyspaceEventKind) (key : String) :
    SameOn K (s.emitKeyspaceEvent now kind key) (t.emitKeyspaceEvent now kind key) :=
  h.congr (by simp) (by simp) (by simp) (by simp)

end SameOn

/-! ## Calls of keys of the set -/

section

variable (h : SameOn K s t) (hs : s.Steady) (ht : t.Steady) (now : Nat) {key : String} (hkey : key ∈ K)

include h

include hs ht in
theorem setWithExpiry_local (key : String) (value : Value) (expiresAt : Option Nat) :
    Alike K (s.setWithExpiry now key value expiresAt) (t.setWithExpiry now key value expiresAt) := by
  have hroom : ∀ {u : KvStore}, u.Steady → ¬ (u.config.maxMemoryBytes > 0 ∧ u.config.lruEvictionEnabled) := by
    rintro u hu ⟨hcap, hlru⟩
    rcases hu.room with hroom | hroom
    · omega
    · rw [hroom] at hlru
      cases hlru
  unfold setWithExpiry
  rw [h.validateKey, h.validateValue, hs.inTransaction, ht.inTransaction]
  cases t.validateKey key with
  | error e => exact ⟨rfl, h⟩
  | ok _ =>
      cases t.validateValue value with
      | error e => exact ⟨rfl, h⟩
      | ok _ =>
          simp only [Bool.false_eq_true, if_false, if_neg (hroom hs), if_neg (hroom ht)]
          exact ⟨rfl, (h.insertEntry key _ _).emit now .set key⟩

include hs ht in
theorem mset_local (rt : Runtime) (pairs : List (String × String)) :
    Alike K (s.mset now pairs) (t.mset now pairs) := by
  induction pairs generalizing s t with
  | nil => exact ⟨rfl, h⟩
  | cons pair pairs ih =>
      obtain ⟨key, value⟩ := pair
      obtain ⟨answer, s', t', hset, htset, hstores⟩ :=
        (setWithExpiry_local h hs ht now key (.str value) none).split
      have hs' := hs.write rt now (.set key (.str value))
      have ht' := ht.write rt now (.set key (.str value))
      simp only [KvStore.write, reply_snd, set, hset, htset] at hs' ht'
      simp only [mset, set, hset, htset]
      cases answer with
      | error e => exact ⟨rfl, hstores⟩
      | ok _ => exact ih hstores hs' ht'

include hkey

include hs ht in
theorem delete_local : Alike K (s.delete now key) (t.delete now key) := by
  unfold delete
  rw [hs.inTransaction, ht.inTransaction, h.entry key hkey]
  simp only [Bool.false_eq_true, if_false]
  cases t.store[key]? with
  | none => exact ⟨rfl, h⟩
  | some entry =>
      refine ⟨rfl, SameOn.emit ?_ now .delete key⟩
      refine ⟨fun k hk => ?_, h.maxKeySize, h.maxValueSize⟩
      simp only [Std.ExtTreeMap.getElem?_erase, h.entry k hk]

theorem addToInt_local (amount : Int64) : Alike K (s.addToInt key amount) (t.addToInt key amount) := by
  unfold addToInt
  rw [h.entry key hkey]
  split
  · exact ⟨rfl, h.rewriteEntry key _⟩
  · exact ⟨rfl, h⟩
  · exact ⟨rfl, h⟩

include hs ht in
theorem append_local (value : String) : Alike K (s.append now key value) (t.append now key value) := by
  obtain ⟨answer, s', t', hset, htset, hstores⟩ :=
    (setWithExpiry_local h hs ht now key (.str value) none).split
  unfold append set
  rw [h.entry key hkey, hset, htset]
  split
  · exact ⟨rfl, h.rewriteEntry key _⟩
  · exact ⟨rfl, h⟩
  · cases answer <;> exact ⟨rfl, hstores⟩

include hs ht in
theorem getset_local (value : Value) : Alike K (s.getset now key value) (t.getset now key value) := by
  obtain ⟨answer, s', t', hset, htset, hstores⟩ := (setWithExpiry_local h hs ht now key value none).split
  unfold getset set
  rw [h.entry key hkey, hset, htset]
  cases answer <;> exact ⟨rfl, hstores⟩

theorem expire_local (ttl : Nat) : Alike K (s.expire now key ttl) (t.expire now key ttl) := by
  unfold expire
  rw [h.entry key hkey]
  cases t.store[key]? with
  | none => exact ⟨rfl, h⟩
  | some entry =>
      simp only
      split
      · exact ⟨rfl, h⟩
      · refine ⟨rfl, SameOn.emit ?_ now .set key⟩
        exact h.insert key _ rfl rfl rfl rfl

theorem persist_local : Alike K (s.persist now key) (t.persist now key) := by
  unfold persist
  rw [h.entry key hkey]
  cases t.store[key]? with
  | none => exact ⟨rfl, h⟩
  | some entry =>
      simp only
      split
      · exact ⟨rfl, h⟩
      · refine ⟨rfl, SameOn.emit ?_ now .set key⟩
        exact h.insert key _ rfl rfl rfl rfl

theorem pfadd_local (rt : Runtime) (values : List String) :
    Alike K (s.pfadd rt key values) (t.pfadd rt key values) := by
  unfold pfadd
  rw [h.validateKey, h.entry key hkey]
  cases t.validateKey key with
  | error e => exact ⟨rfl, h⟩
  | ok _ =>
      simp only
      split
      · exact ⟨rfl, h⟩
      · split
        · exact ⟨rfl, h.rewriteEntry key _⟩
        · exact ⟨rfl, h⟩
        · exact ⟨rfl, h.insertEntry key _ _⟩

theorem pfreserve_local (precision : Nat) :
    Alike K (s.pfreserve key precision) (t.pfreserve key precision) := by
  unfold pfreserve
  rw [h.validateKey, ← Std.ExtTreeMap.isSome_getElem?_eq_contains, h.entry key hkey,
    ← Std.ExtTreeMap.isSome_getElem?_eq_contains]
  cases t.validateKey key with
  | error e => exact ⟨rfl, h⟩
  | ok _ =>
      simp only
      split
      · exact ⟨rfl, h⟩
      · exact ⟨rfl, h.insertEntry key _ _⟩

theorem pushWith_local (push : List String → List String → List String) (values : List String) :
    Alike K (s.pushWith push key values) (t.pushWith push key values) := by
  unfold pushWith
  rw [h.validateKey, h.entry key hkey]
  cases t.validateKey key with
  | error e => exact ⟨rfl, h⟩
  | ok _ =>
      simp only
      split
      · exact ⟨rfl, h.rewriteEntry key _⟩
      · exact ⟨rfl, h⟩
      · exact ⟨rfl, h.insertEntry key _ _⟩

theorem popWith_local (pop : List String → Option (String × List String)) :
    Alike K (s.popWith pop key) (t.popWith pop key) := by
  unfold popWith
  rw [h.entry key hkey]
  split
  · split
    · exact ⟨rfl, h⟩
    · exact ⟨rfl, h.rewriteEntry key _⟩
  · exact ⟨rfl, h⟩
  · exact ⟨rfl, h⟩

theorem hset_local (fields : Fields) : Alike K (s.hset key fields) (t.hset key fields) := by
  unfold hset
  rw [h.validateKey, h.entry key hkey]
  cases t.validateKey key with
  | error e => exact ⟨rfl, h⟩
  | ok _ =>
      simp only
      split
      · exact ⟨rfl, h.rewriteEntry key _⟩
      · exact ⟨rfl, h⟩
      · exact ⟨rfl, h.insertEntry key _ _⟩

theorem hdel_local (fields : List String) : Alike K (s.hdel key fields) (t.hdel key fields) := by
  unfold hdel
  rw [h.entry key hkey]
  split
  · exact ⟨rfl, h.insert key _ rfl rfl rfl rfl⟩
  · exact ⟨rfl, h⟩
  · exact ⟨rfl, h⟩

theorem addToField_local {N : Type} (parse : String → Option N) (zero : N) (add : N → N → N)
    (show_ : N → String) (field : String) (amount : N) :
    Alike K (s.addToField parse zero add show_ key field amount)
      (t.addToField parse zero add show_ key field amount) := by
  unfold addToField
  rw [h.validateKey, h.entry key hkey]
  cases t.validateKey key with
  | error e => exact ⟨rfl, h⟩
  | ok _ =>
      simp only
      split
      · exact ⟨rfl, h.rewriteEntry key _⟩
      · exact ⟨rfl, h⟩
      · exact ⟨rfl, h.insertEntry key _ _⟩

end

theorem mergeSources_local (h : SameOn K s t) (destination : String) {sources : List String}
    (hsources : ∀ source ∈ sources, source ∈ K) :
    ∀ merged, s.mergeSources destination sources merged = t.mergeSources destination sources merged := by
  induction sources with
  | nil => exact fun _ => rfl
  | cons source sources ih =>
      intro merged
      have hrest := ih fun k hk => hsources k (List.mem_cons_of_mem _ hk)
      unfold mergeSources
      rw [h.entry source (hsources source (by simp))]
      simp only [hrest]

theorem pfmerge_local (h : SameOn K s t) {destination : String} (hdestination : destination ∈ K)
    {sources : List String} (hsources : ∀ source ∈ sources, source ∈ K) :
    Alike K (s.pfmerge destination sources) (t.pfmerge destination sources) := by
  unfold pfmerge
  rw [h.validateKey, h.entry destination hdestination, funext (mergeSources_local h destination hsources),
    ← Std.ExtTreeMap.isSome_getElem?_eq_contains, h.entry destination hdestination,
    ← Std.ExtTreeMap.isSome_getElem?_eq_contains]
  cases t.validateKey destination with
  | error e => exact ⟨rfl, h⟩
  | ok _ =>
      simp only
      split
      · exact ⟨rfl, h⟩
      · split
        · exact ⟨rfl, h⟩
        · split
          · exact ⟨rfl, h.rewriteEntry destination _⟩
          · exact ⟨rfl, h.insertEntry destination _ _⟩

theorem Alike.reply {α : Type} {r r' : Except KvStoreError α × KvStore} (h : Alike K r r') (f : α → Reply) :
    Alike K (reply f r) (reply f r') :=
  ⟨congrArg (Except.map f) h.1, h.2⟩

/-! ## Calls of other keys -/

theorem write_apart (hs : s.Steady) (rt : Runtime) (now : Nat) {w : Write} (hw : ∀ k ∈ w.keys, k ∉ K) :
    SameOn K (s.write rt now w).2 s := by
  have hconfig := (write_frame rt s now w).1
  refine ⟨fun k hk => ?_, by rw [hconfig], by rw [hconfig]⟩
  have hnot : k ∉ w.keys := fun hmem => hw k hmem hk
  have hkeyed : w.Keyed → (s.write rt now w).2.contents k = s.contents k := by
    intro hkeyed
    rw [(write_refines rt s now hkeyed (hs.fits _)).contents]
    refine Lib.KeyedLog.run_of_ne (fun u hu => ?_) _
    obtain ⟨c, hc, rfl⟩ := List.mem_map.mp hu
    rintro rfl
    exact hnot (mem_keys_of_mem_cells hc)
  cases w with
  | pfadd key values =>
      exact (pfadd_puts s rt key values).contents_of_ne fun heq => hnot (by simp [Write.keys, heq])
  | pfmerge destination sources =>
      exact (pfmerge_puts s destination sources).contents_of_ne fun heq => hnot (by simp [Write.keys, heq])
  | _ => exact hkeyed trivial

theorem pfreserve_apart {key : String} (hkey : key ∉ K) (s : KvStore) (precision : Nat) :
    SameOn K (s.pfreserve key precision).2 s := by
  unfold pfreserve
  cases s.validateKey key with
  | error e => exact .refl K s
  | ok _ =>
      simp only
      split
      · exact .refl K s
      · refine ⟨fun k hk => ?_, rfl, rfl⟩
        have hne : key ≠ k := fun heq => hkey (heq ▸ hk)
        simp only [insertEntry_store, Std.ExtTreeMap.getElem?_insert, Std.LawfulEqCmp.compare_eq_iff_eq,
          if_neg hne]

/-! ## Reads -/

namespace SameOn

theorem get (h : SameOn K s t) (now : Nat) {key : String} (hkey : key ∈ K) :
    s.get now key = t.get now key := by
  unfold KvStore.get
  rw [h.entry key hkey]

theorem mget (h : SameOn K s t) (now : Nat) {keys : List String} (hkeys : ∀ key ∈ keys, key ∈ K) :
    s.mget now keys = t.mget now keys :=
  List.map_congr_left fun key hkey => h.get now (hkeys key hkey)

theorem ttlSeconds (h : SameOn K s t) (now : Nat) {key : String} (hkey : key ∈ K) :
    s.ttlSeconds now key = t.ttlSeconds now key := by
  unfold KvStore.ttlSeconds
  rw [h.entry key hkey]

theorem pttlMillis (h : SameOn K s t) (now : Nat) {key : String} (hkey : key ∈ K) :
    s.pttlMillis now key = t.pttlMillis now key := by
  unfold KvStore.pttlMillis
  rw [h.ttlSeconds now hkey]

theorem readHll {α : Type} (h : SameOn K s t) (now : Nat) {key : String} (hkey : key ∈ K)
    (f : HyperLogLog → α) : s.readHll now key f = t.readHll now key f := by
  unfold KvStore.readHll
  rw [h.get now hkey]

theorem readHash {α : Type} (h : SameOn K s t) (now : Nat) {key : String} (hkey : key ∈ K)
    (f : Fields → α) (missing : α) : s.readHash now key f missing = t.readHash now key f missing := by
  unfold KvStore.readHash
  rw [h.get now hkey]

theorem lrange (h : SameOn K s t) (now : Nat) {key : String} (hkey : key ∈ K) (start stop : Int) :
    s.lrange now key start stop = t.lrange now key start stop := by
  unfold KvStore.lrange
  rw [h.get now hkey]

theorem llen (h : SameOn K s t) (now : Nat) {key : String} (hkey : key ∈ K) :
    s.llen now key = t.llen now key := by
  unfold KvStore.llen
  rw [h.get now hkey]

end SameOn

end KvStore

end Daikon
