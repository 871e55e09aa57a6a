/-
# Daikon.Store.Touch -- the keys that a write moves to the recent end

A write that is carried out puts its keys, one after the other, and each put moves its key to the end of
the recency list; in between, a put may evict the head of it. That is all that a write does to the list
and to the set of keys, unless it is a `delete` (`write_records`).

`Records` is an inductive relation with one constructor for a put and one for an eviction, and so a sequence
of both that a write makes is one derivation. What else the write does, to values and counters, is not in
it. The puts of a call are given as a list of keys (`Write.puts`): none if it is refused or queued, its key
if it is carried out, and for `mset` the pairs up to the first that is refused.
-/
import Daikon.Store.Memory
import Daikon.Store.Recency

namespace Daikon

namespace KvStore

/-- From the first store to the second these keys are put, in this order, and heads of the list may be
evicted. -/
inductive Records : KvStore → List String → KvStore → Prop
  | same {s s' : KvStore} : s'.lruOrder = s.lruOrder → (∀ k, k ∈ s'.store ↔ k ∈ s.store) → Records s [] s'
  | put {s s' : KvStore} {key : String} {entry : ValueWithTTL} : s'.store = s.store.insert key entry →
      s'.lruOrder = (s.updateLru key).lruOrder → Records s [key] s'
  | evict {s s' : KvStore} {lruKey : String} : s.lruOrder = lruKey :: s'.lruOrder →
      (∀ k, k ∈ s'.store ↔ k ≠ lruKey ∧ k ∈ s.store) → Records s [] s'
  | trans {s t u : KvStore} {us us' : List String} : Records s us t → Records t us' u →
      Records s (us ++ us') u

/-- The key is free, or holds a value of this type. -/
def Takes (s : KvStore) (key type : String) : Prop := s.contents key = none ∨ s.Holds key type

instance (s : KvStore) (key type : String) : Decidable (s.Takes key type) :=
  inferInstanceAs (Decidable (_ ∨ _))

/-- The key of a put that is carried out. -/
def putKey (s : KvStore) (key : String) (value : Value) : List String :=
  if s.config.Valid key value ∧ s.transactionQueue = none then [key] else []

/-- The key, if the call is carried out. -/
def keyIf (c : Prop) [Decidable c] (key : String) : List String := if c then [key] else []

end KvStore

/-- The keys that a call puts. -/
def Write.puts (s : KvStore) : Write → List String
  | set key value | setWithTtl key value _ | getset key value => s.putKey key value
  | delete _ | expire _ _ | persist _ => []
  | incr key | decr key | incrby key _ => KvStore.keyIf (s.Holds key "Int") key
  | append key value =>
      if s.contents key = none then s.putKey key (.str value) else KvStore.keyIf (s.Holds key "Str") key
  | mset pairs =>
      if s.transactionQueue = none then
        (pairs.takeWhile fun p => s.config.Valid p.1 (.str p.2)).map Prod.fst
      else []
  | pfadd key values =>
      KvStore.keyIf (s.config.ValidKey key ∧ values ≠ [] ∧ s.Takes key "HyperLogLog") key
  | pfmerge destination sources =>
      KvStore.keyIf ((s.pfmerge destination sources).1.isOk = true) destination
  | lpush key _ | rpush key _ => KvStore.keyIf (s.config.ValidKey key ∧ s.Takes key "List") key
  | lpop key | rpop key => KvStore.keyIf (s.Holds key "List" ∧ s.values key ≠ some (.list [])) key
  | hset key _ | hincrby key _ _ | hincrbyfloat key _ _ =>
      KvStore.keyIf (s.config.ValidKey key ∧ s.Takes key "Hash") key
  | hdel key _ => KvStore.keyIf (s.Holds key "Hash") key

namespace KvStore

theorem Records.refl (s : KvStore) : Records s [] s := .same rfl fun _ => Iff.rfl

theorem Records.after {s t u : KvStore} {us : List String} (h : Records s us t) (h' : Records t [] u) :
    Records s us u := by
  have htrans := h.trans h'
  rwa [List.append_nil] at htrans

/-- Puts bring their keys into the list, and evictions take keys out of both. -/
theorem Records.tracked {s s' : KvStore} {us : List String} {k : String} (hrec : Records s us s') :
    s'.Tracked k ↔ k ∈ us ∨ s.Tracked k := by
  induction hrec with
  | same hlru hkeys =>
      unfold Tracked
      rw [hlru, hkeys]
      simp
  | put hstore hlru => rw [tracked_put hstore hlru, List.mem_singleton]
  | @evict s s' lruKey hlru hkeys =>
      unfold Tracked
      rw [hlru, hkeys, List.mem_cons]
      by_cases hk : k = lruKey <;> simp [hk]
  | trans _ _ ih ih' => rw [ih', ih, List.mem_append, ← or_assoc, or_comm (a := k ∈ _) (b := k ∈ _)]

theorem Records.emit {s t : KvStore} {us : List String} (h : Records s us t) (now : Nat)
    (kind : KeyspaceEventKind) (key : String) : Records s us (t.emitKeyspaceEvent now kind key) :=
  h.after (.same (emitKeyspaceEvent_lruOrder now kind) fun k => by rw [emitKeyspaceEvent_store])

section

variable {s s' : KvStore} {key : String} {c : Prop} [Decidable c]

theorem Records.accepted (hc : c) (h : Records s [key] s') : Records s (keyIf c key) s' := by
  rw [keyIf, if_pos hc]
  exact h

theorem Records.refused (hc : ¬ c) : Records s (keyIf c key) s := by
  rw [keyIf, if_neg hc]
  exact .refl s

/-- A call that first checks the key. -/
theorem Records.validated {α : Type} {rest : Except KvStoreError α × KvStore}
    (h : s.config.ValidKey key → Records s (keyIf (s.config.ValidKey key ∧ c) key) rest.2) :
    Records s (keyIf (s.config.ValidKey key ∧ c) key) (match s.validateKey key with
      | .error e => (Except.error e, s)
      | .ok () => rest).2 := by
  by_cases hvalid : s.config.ValidKey key
  · rw [validateKey_eq s key hvalid]
    exact h hvalid
  · obtain ⟨e, he⟩ := validateKey_refused s key hvalid
    rw [he]
    exact .refused fun hc => hvalid hc.1

end

/-! ## What is at a key -/

section

variable {s : KvStore} {key type : String} {entry : ValueWithTTL}

theorem holds_iff (hkey : s.store[key]? = some entry) : s.Holds key type ↔ entry.value.typeName = type := by
  unfold Holds
  rw [hkey]
  simp

theorem not_holds (hkey : s.store[key]? = none) : ¬ s.Holds key type := by
  unfold Holds
  rw [hkey]
  simp

theorem takes_iff (hkey : s.store[key]? = some entry) : s.Takes key type ↔ entry.value.typeName = type := by
  have hcell : s.contents key = some entry := hkey
  unfold Takes
  rw [hcell, holds_iff hkey]
  simp

theorem mem_rewritten_iff {k : String} {old : ValueWithTTL} (hkey : s.store[key]? = some old) :
    k ∈ s.store.insert key entry ↔ k ∈ s.store := by
  rw [mem_insert_iff]
  refine or_iff_right_of_imp fun heq => ?_
  rw [heq, Std.ExtTreeMap.mem_iff_isSome_getElem?, hkey]
  rfl

end

/-! ## Eviction and puts -/

theorem evictHead_records {s : KvStore} {now : Nat} {lruKey : String} {rest : List String}
    (hlru : s.lruOrder = lruKey :: rest) : Records s [] (s.evictHead now lruKey rest) := by
  have htail : s.lruOrder = lruKey :: (s.evictHead now lruKey rest).lruOrder := by
    rw [evictHead_lruOrder, hlru]
  refine .evict htail fun k => ?_
  unfold evictHead
  cases hkey : s.store[lruKey]? with
  | none =>
      have hout : lruKey ∉ s.store := by
        rw [Std.ExtTreeMap.mem_iff_isSome_getElem?, hkey]
        simp
      exact ⟨fun hk => ⟨fun heq => hout (heq ▸ hk), hk⟩, fun hk => hk.2⟩
  | some entry =>
      simp only [emitKeyspaceEvent_store]
      exact mem_erase_iff

theorem enforceMemoryLimit_records (s : KvStore) (now : Nat) : Records s [] (s.enforceMemoryLimit now) :=
  enforceMemoryLimit_induct Records.refl (fun _ _ _ => Records.after)
    (fun _ _ _ => evictHead_records) s

theorem setWithExpiry_records (s : KvStore) (now : Nat) (key : String) (value : Value)
    (expiresAt : Option Nat) :
    Records s (s.putKey key value) (s.setWithExpiry now key value expiresAt).2 := by
  unfold putKey
  by_cases hput : s.config.Valid key value ∧ s.transactionQueue = none
  · rw [if_pos hput, setWithExpiry_put hput.1 hput.2]
    have hinsert : Records s [key] (s.insertEntry key ⟨value, expiresAt⟩ (estimateValueSize value)) :=
      .put rfl rfl
    refine Records.emit ?_ _ _ _
    split
    · exact hinsert.after (enforceMemoryLimit_records _ now)
    · exact hinsert
  · obtain ⟨queue, hqueue⟩ := setWithExpiry_unput now expiresAt hput
    rw [if_neg hput, hqueue]
    exact .same rfl fun _ => Iff.rfl

/-! ## Call by call -/

section

variable {s : KvStore} {key : String}

theorem append_records (now : Nat) (value : String) :
    Records s ((Write.append key value).puts s) (s.append now key value).2 := by
  rw [Write.puts]
  cases hkey : s.store[key]? with
  | none =>
      have hcell : s.contents key = none := hkey
      rw [if_pos hcell, append_absent s key now value hkey]
      exact setWithExpiry_records s now key _ none
  | some entry =>
      have hcell : s.contents key = some entry := hkey
      rw [if_neg (by simp [hcell])]
      unfold append
      obtain ⟨old, expiresAt⟩ := entry
      rw [hkey]
      cases old with
      | str old => exact .accepted ((holds_iff hkey).mpr rfl) (.put rfl rfl)
      | _ => exact .refused fun h => by simpa [Value.typeName] using (holds_iff hkey).mp h

theorem addToInt_records (amount : Int64) :
    Records s (keyIf (s.Holds key "Int") key) (s.addToInt key amount).2 := by
  unfold addToInt
  cases hkey : s.store[key]? with
  | none => exact .refused (not_holds hkey)
  | some entry =>
      obtain ⟨value, expiresAt⟩ := entry
      cases value with
      | int i => exact .accepted ((holds_iff hkey).mpr rfl) (.put rfl rfl)
      | _ => exact .refused fun h => by simpa [Value.typeName] using (holds_iff hkey).mp h

theorem mset_records (now : Nat) (pairs : List (String × String)) :
    ∀ s : KvStore, Records s ((Write.mset pairs).puts s) (s.mset now pairs).2 := by
  induction pairs with
  | nil =>
      intro s
      rw [Write.puts]
      split <;> exact .refl s
  | cons pair pairs ih =>
      intro s
      obtain ⟨key, value⟩ := pair
      have hcfg : (s.set now key (.str value)).2.config = s.config := setWithExpiry_config
      have hfirst := setWithExpiry_records s now key (.str value) none
      have hrest := ih (s.set now key (.str value)).2
      have htx : (s.set now key (.str value)).2.transactionQueue = none ↔ s.transactionQueue = none := by
        have hopen : (s.set now key (.str value)).2.inTransaction = s.inTransaction :=
          setWithExpiry_inTransaction
        simp only [inTransaction, ← Option.not_isSome_iff_eq_none] at hopen ⊢
        rw [hopen]
      rw [mset_cons_snd]
      rw [Write.puts] at hrest ⊢
      rw [hcfg] at hrest
      by_cases hvalid : s.config.Valid key (.str value)
      · rw [if_pos hvalid]
        have hboth := hfirst.trans hrest
        by_cases hnone : s.transactionQueue = none
        · rw [if_pos (htx.mpr hnone), putKey, if_pos ⟨hvalid, hnone⟩] at hboth
          rw [if_pos hnone, List.takeWhile_cons_of_pos (by simpa using hvalid)]
          exact hboth
        · rw [if_neg fun h => hnone (htx.mp h), putKey, if_neg fun h => hnone h.2] at hboth
          rw [if_neg hnone]
          exact hboth
      · rw [if_neg hvalid, List.takeWhile_cons_of_neg (by simpa using hvalid)]
        split <;> exact .refl s

theorem expire_records (now ttl : Nat) : Records s [] (s.expire now key ttl).2 := by
  unfold expire
  split
  · exact .refl s
  · next entry hkey =>
      split
      · exact .refl s
      · refine Records.emit ?_ _ _ _
        exact .same rfl fun k => mem_rewritten_iff hkey

theorem persist_records (now : Nat) : Records s [] (s.persist now key).2 := by
  unfold persist
  split
  · exact .refl s
  · next entry hkey =>
      split
      · exact .refl s
      · refine Records.emit ?_ _ _ _
        exact .same rfl fun k => mem_rewritten_iff hkey

theorem pfadd_records (rt : Runtime) (values : List String) : Records s
    (keyIf (s.config.ValidKey key ∧ values ≠ [] ∧ s.Takes key "HyperLogLog") key)
      (s.pfadd rt key values).2 := by
  unfold pfadd
  refine Records.validated fun hvalid => ?_
  cases hvalues : values with
  | nil => exact .refused (by simp)
  | cons value rest =>
      simp only [List.isEmpty_cons, Bool.false_eq_true, if_false]
      cases hkey : s.store[key]? with
      | none => exact .accepted ⟨hvalid, by simp, .inl hkey⟩ (.put rfl rfl)
      | some entry =>
          obtain ⟨v, expiresAt⟩ := entry
          cases v with
          | hyperLogLog hll =>
              exact .accepted ⟨hvalid, by simp, (takes_iff hkey).mpr rfl⟩ (.put rfl rfl)
          | _ => exact .refused fun h => by simpa [Value.typeName] using (takes_iff hkey).mp h.2.2

theorem pfmerge_records (sources : List String) : Records s
    (keyIf ((s.pfmerge key sources).1.isOk = true) key) (s.pfmerge key sources).2 := by
  rcases pfmerge_cases s key sources with ⟨e, he⟩ | ⟨merged, -, -, -, heq⟩
  · rw [he]
    exact .refused (by simp [Except.isOk, Except.toBool])
  · rw [heq]
    refine .accepted rfl ?_
    split <;> exact .put rfl rfl

theorem pfreserve_records (precision : Nat) : Records s
    (keyIf (s.config.ValidKey key ∧ s.contents key = none) key) (s.pfreserve key precision).2 := by
  by_cases h : s.config.ValidKey key ∧ s.contents key = none
  · rw [pfreserve_put precision h.1 h.2]
    exact .accepted h (.put rfl rfl)
  · rcases pfreserve_cases s key precision with ⟨e, he⟩ | ⟨hvalid, hfree, -⟩
    · rw [he]
      exact .refused h
    · exact absurd ⟨hvalid, hfree⟩ h

theorem pushWith_records (push : List String → List String → List String) (values : List String) :
    Records s (keyIf (s.config.ValidKey key ∧ s.Takes key "List") key) (s.pushWith push key values).2 := by
  unfold pushWith
  refine Records.validated fun hvalid => ?_
  cases hkey : s.store[key]? with
  | none => exact .accepted ⟨hvalid, .inl hkey⟩ (.put rfl rfl)
  | some entry =>
      obtain ⟨v, expiresAt⟩ := entry
      cases v with
      | list items => exact .accepted ⟨hvalid, (takes_iff hkey).mpr rfl⟩ (.put rfl rfl)
      | _ => exact .refused fun h => by simpa [Value.typeName] using (takes_iff hkey).mp h.2

/-- A pop of an empty list puts nothing. -/
theorem popWith_records {pop : List String → Option (String × List String)}
    (hpop : ∀ items, pop items = none ↔ items = []) : Records s
      (keyIf (s.Holds key "List" ∧ s.values key ≠ some (.list [])) key) (s.popWith pop key).2 := by
  unfold popWith
  cases hkey : s.store[key]? with
  | none => exact .refused fun h => not_holds hkey h.1
  | some entry =>
      obtain ⟨v, expiresAt⟩ := entry
      have hvalue : s.values key = some v := by
        have hcell : s.contents key = some ⟨v, expiresAt⟩ := hkey
        rw [values, hcell]
        rfl
      cases v with
      | list items =>
          simp only
          cases hitems : pop items with
          | none =>
              obtain rfl := (hpop items).mp hitems
              exact .refused fun h => h.2 hvalue
          | some p =>
              have hne : items ≠ [] := fun h => by simp [(hpop items).mpr h] at hitems
              refine .accepted ⟨(holds_iff hkey).mpr rfl, ?_⟩ (.put rfl rfl)
              rw [hvalue]
              simpa using hne
      | _ => exact .refused fun h => by simpa [Value.typeName] using (holds_iff hkey).mp h.1

theorem hset_records (fields : Fields) :
    Records s (keyIf (s.config.ValidKey key ∧ s.Takes key "Hash") key) (s.hset key fields).2 := by
  unfold hset
  refine Records.validated fun hvalid => ?_
  cases hkey : s.store[key]? with
  | none => exact .accepted ⟨hvalid, .inl hkey⟩ (.put rfl rfl)
  | some entry =>
      obtain ⟨v, expiresAt⟩ := entry
      cases v with
      | hash map => exact .accepted ⟨hvalid, (takes_iff hkey).mpr rfl⟩ (.put rfl rfl)
      | _ => exact .refused fun h => by simpa [Value.typeName] using (takes_iff hkey).mp h.2

theorem hdel_records (fields : List String) :
    Records s (keyIf (s.Holds key "Hash") key) (s.hdel key fields).2 := by
  unfold hdel
  cases hkey : s.store[key]? with
  | none => exact .refused (not_holds hkey)
  | some entry =>
      obtain ⟨v, expiresAt⟩ := entry
      cases v with
      | hash map => exact .accepted ((holds_iff hkey).mpr rfl) (.put rfl rfl)
      | _ => exact .refused fun h => by simpa [Value.typeName] using (holds_iff hkey).mp h

theorem addToField_records {N : Type} (parse : String → Option N) (zero : N) (add : N → N → N)
    (show_ : N → String) (field : String) (amount : N) :
    Records s (keyIf (s.config.ValidKey key ∧ s.Takes key "Hash") key)
      (s.addToField parse zero add show_ key field amount).2 := by
  unfold addToField
  refine Records.validated fun hvalid => ?_
  cases hkey : s.store[key]? with
  | none => exact .accepted ⟨hvalid, .inl hkey⟩ (.put rfl rfl)
  | some entry =>
      obtain ⟨v, expiresAt⟩ := entry
      cases v with
      | hash map => exact .accepted ⟨hvalid, (takes_iff hkey).mpr rfl⟩ (.put rfl rfl)
      | _ => exact .refused fun h => by simpa [Value.typeName] using (takes_iff hkey).mp h.2

end

/-- What a write but a `delete` does to the list and to the set of keys. -/
theorem write_records (rt : Runtime) (s : KvStore) (now : Nat) {w : Write} (hw : ∀ key, w ≠ .delete key) :
    Records s (w.puts s) (s.write rt now w).2 := by
  cases w with
  | set key value => exact setWithExpiry_records s now key value none
  | setWithTtl key value ttl => exact setWithExpiry_records s now key value _
  | delete key => exact absurd rfl (hw key)
  | append key value => exact append_records now value
  | getset key value =>
      rw [show (s.write rt now (.getset key value)).2 = _ from getset_snd s key now value]
      exact setWithExpiry_records s now key value none
  | mset pairs => exact mset_records now pairs s
  | incr key => exact addToInt_records 1
  | decr key => exact addToInt_records (-1)
  | incrby key amount => exact addToInt_records amount
  | expire key ttl => exact expire_records now ttl
  | persist key => exact persist_records now
  | pfadd key values => exact pfadd_records rt values
  | pfmerge destination sources => exact pfmerge_records sources
  | lpush key values => exact pushWith_records pushFront values
  | rpush key values => exact pushWith_records (· ++ ·) values
  | lpop key => exact popWith_records popFront_eq_none
  | rpop key => exact popWith_records popBack_eq_none
  | hset key fields => exact hset_records fields
  | hdel key fields => exact hdel_records fields
  | hincrby key field amount => exact addToField_records parseI64 0 (· + ·) toString field amount
  | hincrbyfloat key field amount =>
      exact addToField_records rt.f64Parse 0.0 (· + ·) rt.f64ToString field amount

end KvStore

end Daikon
