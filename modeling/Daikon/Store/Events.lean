/-
# Daikon.Store.Events -- the keyspace as a subscriber sees it

A subscriber adds a key at `set` and takes it out at `del`, `expired` and `evicted`. For each call: when
does one that had the keys of the store before it have those after it (`Reports`)? Evictions, deletes and
clean-up report what they take out. HyperLogLog, list and hash calls report nothing, nor does EXEC, and a
`set` reports its key behind the eviction, which may have taken it.

`Reports` is an equivalence: under which condition does a subscriber that had the right keys have the right
keys again. So a call that reports nothing is all right exactly if it neither creates a key nor removes one,
and for the others there is a rule by the order in which events and changes come.

The one call that needs an invariant of its own is MSET. Behind a put the eviction may take the key that was
put, and then the event of the put comes last and is wrong; but a later pair may put the same key again and
make it good. So what a subscriber has too much has to be followed from pair to pair (`mset_followed`).
-/
import Daikon.Store.Budget

namespace Daikon

namespace KeyspaceEvent

/-- What a subscriber makes of an event. -/
def apply (keys : Set String) (event : KeyspaceEvent) : Set String :=
  match event.kind with
  | .set => insert event.key keys
  | .delete | .expired | .evicted => keys \ {event.key}

/-- What a subscriber makes of the events, in order. -/
def follow (keys : Set String) (events : List KeyspaceEvent) : Set String := events.foldl apply keys

theorem follow_append (keys : Set String) (events more : List KeyspaceEvent) :
    follow keys (events ++ more) = follow (follow keys events) more := List.foldl_append

end KeyspaceEvent

open KeyspaceEvent (follow follow_append)

namespace KvStore

/-- The keys that are present in the store. -/
def keys (s : KvStore) : Set String := {k | s.contents k ≠ none}

theorem mem_keys_iff {s : KvStore} {k : String} : k ∈ s.keys ↔ s.contents k ≠ none := Iff.rfl

/-- A set that has at least the keys of the store has just them if nothing is too much. -/
theorem eq_keys_iff {s : KvStore} {seen : Set String} (h : s.keys ⊆ seen) :
    seen = s.keys ↔ ∀ k, k ∉ seen \ s.keys := by
  rw [Set.Subset.antisymm_iff, and_iff_left h, ← Set.sdiff_eq_empty, Set.eq_empty_iff_forall_notMem]

theorem keys_update {s s' : KvStore} {key : String} {e : Option ValueWithTTL}
    (h : s'.contents = Function.update s.contents key e) (k : String) :
    k ∈ s'.keys ↔ if k = key then e ≠ none else k ∈ s.keys := by
  rw [mem_keys_iff, h]
  split
  · next hk => rw [hk, Function.update_self]
  · next hk => rw [Function.update_of_ne hk, mem_keys_iff]

/-- A subscriber that had the keys of `s` has those of `s'` if and only if `C`. -/
def Reports (s s' : KvStore) (C : Prop) : Prop :=
  ∃ new, s'.pendingKeyspaceEvents = s.pendingKeyspaceEvents ++ new ∧ (follow s.keys new = s'.keys ↔ C)

section

variable {s s' s'' : KvStore} {C D : Prop}

theorem Reports.congr (h : Reports s s' C) (hCD : C ↔ D) : Reports s s' D := by
  obtain ⟨new, hpending, hiff⟩ := h
  exact ⟨new, hpending, hiff.trans hCD⟩

/-- Nothing is reported. -/
theorem Reports.silent (h : s'.pendingKeyspaceEvents = s.pendingKeyspaceEvents) :
    Reports s s' (s.keys = s'.keys) := ⟨[], by rw [h, List.append_nil], Iff.rfl⟩

theorem Reports.refl (s : KvStore) : Reports s s True := (Reports.silent rfl).congr (iff_of_true rfl trivial)

theorem Reports.trans (h : Reports s s' True) (h' : Reports s' s'' C) : Reports s s'' C := by
  obtain ⟨new, hpending, hiff⟩ := h
  obtain ⟨new', hpending', hiff'⟩ := h'
  refine ⟨new ++ new', by rw [hpending', hpending, List.append_assoc], ?_⟩
  rw [follow_append, hiff.mpr trivial]
  exact hiff'

/-- A change at one key that reports itself. -/
theorem Reports.event (e : Option ValueWithTTL) (event : KeyspaceEvent)
    (hcontents : s'.contents = Function.update s.contents event.key e)
    (hpending : s'.pendingKeyspaceEvents = s.pendingKeyspaceEvents ++ [event])
    (hkind : event.kind = .set ↔ e ≠ none) : Reports s s' True := by
  refine ⟨[event], hpending, iff_of_true ?_ trivial⟩
  obtain ⟨kind, key, timestamp⟩ := event
  ext k
  rw [keys_update hcontents, ← hkind]
  by_cases hk : k = key <;> cases kind <;> simp [follow, KeyspaceEvent.apply, hk]

/-- An operation at one key that reports nothing. -/
theorem Reports.silent_one {key : String} {op : CellOp}
    (hcontents : s'.contents = Function.update s.contents key (op.onEntry (s.contents key)))
    (hpending : s'.pendingKeyspaceEvents = s.pendingKeyspaceEvents) :
    Reports s s' (op.onEntry (s.contents key) = none ↔ s.contents key = none) := by
  refine (Reports.silent hpending).congr ⟨fun h => ?_, fun h => ?_⟩
  · have hkey := Set.ext_iff.mp h key
    rw [keys_update hcontents, if_pos rfl, mem_keys_iff] at hkey
    tauto
  · ext k
    rw [keys_update hcontents]
    split
    · next hk =>
        rw [hk, mem_keys_iff]
        tauto
    · rfl

/-- An entry put without a report. -/
theorem Reports.silent_put {key : String} {entry : ValueWithTTL}
    (hstore : s'.store = s.store.insert key entry)
    (hpending : s'.pendingKeyspaceEvents = s.pendingKeyspaceEvents) :
    Reports s s' (s.contents key ≠ none) := by
  have hcontents : s'.contents = Function.update s.contents key
      ((CellOp.assign entry.value entry.expiresAt).onEntry (s.contents key)) := by
    funext k
    rw [contents, hstore]
    exact contents_insert s key entry k
  refine (Reports.silent_one hcontents hpending).congr ?_
  simp [CellOp.onEntry, eq_comm]

theorem emitKeyspaceEvent_pending (s : KvStore) (now : Nat) (kind : KeyspaceEventKind) (key : String)
    (hon : s.config.keyspaceNotificationsEnabled = true) :
    (s.emitKeyspaceEvent now kind key).pendingKeyspaceEvents
      = s.pendingKeyspaceEvents ++ [⟨kind, key, now⟩] := by
  unfold emitKeyspaceEvent
  rw [if_pos hon]

end

/-! ## Eviction -/

/-- What is evicted is reported, whatever the subscriber has. -/
def Evicted (s s' : KvStore) : Prop :=
  ∃ new gone, s'.pendingKeyspaceEvents = s.pendingKeyspaceEvents ++ new ∧
    (∀ keys, follow keys new = keys \ gone) ∧ s'.keys = s.keys \ gone ∧ gone ⊆ s.keys

theorem Evicted.of_same {s s' : KvStore} (hstore : s'.contents = s.contents)
    (hpending : s'.pendingKeyspaceEvents = s.pendingKeyspaceEvents) : Evicted s s' := by
  refine ⟨[], ∅, by rw [hpending, List.append_nil], fun keys => ?_, ?_, Set.empty_subset _⟩
  · rw [Set.sdiff_empty]
    rfl
  · rw [Set.sdiff_empty, keys, hstore]
    rfl

theorem Evicted.trans {s s' s'' : KvStore} (h : Evicted s s') (h' : Evicted s' s'') :
    Evicted s s'' := by
  obtain ⟨new, gone, hpending, hfollow, hkeys, hgone⟩ := h
  obtain ⟨new', gone', hpending', hfollow', hkeys', hgone'⟩ := h'
  refine ⟨new ++ new', gone ∪ gone', by rw [hpending', hpending, List.append_assoc], fun keys => ?_,
    ?_, ?_⟩
  · rw [follow_append, hfollow, hfollow', Set.sdiff_sdiff]
  · rw [hkeys', hkeys, Set.sdiff_sdiff]
  · rw [hkeys] at hgone'
    exact Set.union_subset hgone (hgone'.trans Set.sdiff_subset)

theorem evictHead_evicted {s : KvStore} (now : Nat) (lruKey : String) (rest : List String)
    (hon : s.config.keyspaceNotificationsEnabled = true) : Evicted s (s.evictHead now lruKey rest) := by
  have hcontents := (evictHead_effect s now lruKey rest).1
  cases hhead : s.contents lruKey with
  | none =>
      refine Evicted.of_same (by rw [hcontents, ← hhead, Function.update_eq_self]) ?_
      unfold evictHead
      rw [show s.store[lruKey]? = none from hhead]
  | some entry =>
      refine ⟨[⟨.evicted, lruKey, now⟩], {lruKey}, ?_, fun keys => rfl, ?_, ?_⟩
      · unfold evictHead
        rw [show s.store[lruKey]? = some entry from hhead]
        exact emitKeyspaceEvent_pending _ now .evicted lruKey hon
      · ext k
        rw [keys_update hcontents]
        by_cases hk : k = lruKey <;> simp [hk]
      · rw [Set.singleton_subset_iff, mem_keys_iff, hhead]
        simp

theorem enforceLoop_evicted (now : Nat) (lru : List String) :
    ∀ s : KvStore, s.config.keyspaceNotificationsEnabled = true → Evicted s (enforceLoop now lru s) := by
  induction lru with
  | nil => exact fun s _ => Evicted.of_same rfl rfl
  | cons lruKey rest ih =>
      intro s hon
      unfold enforceLoop
      split
      · have hcfg := evictHead_config s now lruKey rest
        exact (evictHead_evicted now lruKey rest hon).trans (ih _ (hcfg ▸ hon))
      · exact Evicted.of_same rfl rfl

/-! ## A put -/

/-- The loop behind the put leaves the new entry in place: the cap and the bytes of the other entries
hold what the counter then stands at. -/
def Stays (s : KvStore) (key : String) (value : Value) : Prop :=
  s.config.Capped → s.stats.memoryBytes + estimateValueSize value + cellSize (s.contents key)
    ≤ s.config.maxMemoryBytes + s.valueBytes

section

variable {s : KvStore} {key : String} {value : Value}

theorem setWithExpiry_stays_iff (now : Nat) (expiresAt : Option Nat) (hlisted : s.Listed)
    (hvalid : s.config.Valid key value) (htx : s.transactionQueue = none) :
    (s.setWithExpiry now key value expiresAt).2.contents key ≠ none ↔ s.Stays key value := by
  have hlast := bytesAhead_last key (s.lruOrder.filter (· ≠ key)) s (fun k hk => by
    by_cases heq : k = key
    · simp [heq]
    · simp [heq, hlisted k hk]) (by simp)
  have hself : key ∈ s.recencyWith key := by simp [recencyWith]
  rw [put_contents hvalid htx, Function.update_self]
  unfold Stays PutTakes recencyWith at *
  constructor
  · intro h hcapped
    by_contra hover
    exact h (if_pos ⟨hcapped, hself, by omega⟩)
  · intro h
    rw [if_neg]
    · simp
    · rintro ⟨hcapped, -, hover⟩
      have := h hcapped
      omega

/-- What a put does after its entry is in place: it evicts, at most. -/
theorem bounded_evicted (now : Nat) {p t : KvStore}
    (hon : p.config.keyspaceNotificationsEnabled = true)
    (ht : (if p.config.maxMemoryBytes > 0 ∧ p.config.lruEvictionEnabled = true then
      p.enforceMemoryLimit now else p) = t) : Evicted p t ∧ t.config = p.config := by
  rw [← ht]
  split
  · next hcap =>
      rw [enforceMemoryLimit_config, enforceMemoryLimit_capped (by exact hcap.1)]
      exact ⟨enforceLoop_evicted now _ _ hon, rfl⟩
  · exact ⟨Evicted.of_same rfl rfl, rfl⟩

/-- A subscriber that has at least the keys of the store has so after a put, and what it has too much
is what it had, the key of the put aside; that one is too much if it does not stay. -/
theorem put_followed (now : Nat) (expiresAt : Option Nat) (hlisted : s.Listed)
    (hvalid : s.config.Valid key value) (htx : s.transactionQueue = none)
    (hon : s.config.keyspaceNotificationsEnabled = true) :
    ∃ new, (s.setWithExpiry now key value expiresAt).2.pendingKeyspaceEvents
        = s.pendingKeyspaceEvents ++ new ∧
      ∀ seen, s.keys ⊆ seen → (s.setWithExpiry now key value expiresAt).2.keys ⊆ follow seen new ∧
        ∀ k, k ∈ follow seen new \ (s.setWithExpiry now key value expiresAt).2.keys ↔
          if k = key then ¬ s.Stays key value else k ∈ seen \ s.keys := by
  have hstays := setWithExpiry_stays_iff now expiresAt hlisted hvalid htx
  have hput := (insertEntry_moves s key value expiresAt).contents
  rw [← mem_keys_iff] at hstays
  rw [setWithExpiry_put hvalid htx] at hstays ⊢
  simp only at hstays ⊢
  generalize hbounded : (if s.config.maxMemoryBytes > 0 ∧ s.config.lruEvictionEnabled = true then
    (s.insertEntry key ⟨value, expiresAt⟩ (estimateValueSize value)).enforceMemoryLimit now
    else s.insertEntry key ⟨value, expiresAt⟩ (estimateValueSize value)) = t at hstays ⊢
  have hon' : (s.insertEntry key ⟨value, expiresAt⟩
      (estimateValueSize value)).config.keyspaceNotificationsEnabled = true := hon
  obtain ⟨hevicted, hcfg⟩ := bounded_evicted now hon' hbounded
  obtain ⟨new, gone, hpending, hfollow, hkeys, hgone⟩ := hevicted
  have hsame : (t.emitKeyspaceEvent now .set key).keys = t.keys := by
    rw [keys, emitKeyspaceEvent_contents]
    rfl
  have hmem : ∀ k, k ∈ t.keys ↔ (k = key ∨ k ∈ s.keys) ∧ k ∉ gone := by
    intro k
    rw [hkeys, Set.mem_sdiff, keys_update hput]
    simp only [CellOp.onEntry]
    by_cases hk : k = key <;> simp [hk]
  have hfrom : ∀ k ∈ gone, k = key ∨ k ∈ s.keys := by
    intro k hk
    have hin := hgone hk
    rw [keys_update hput] at hin
    by_cases heq : k = key
    · exact .inl heq
    · rw [if_neg heq] at hin
      exact .inr hin
  rw [hsame] at hstays ⊢
  refine ⟨new ++ [⟨.set, key, now⟩], ?_, fun seen hseen => ⟨fun k hk => ?_, fun k => ?_⟩⟩
  · rw [emitKeyspaceEvent_pending t now .set key (by rw [hcfg]; exact hon), hpending,
      List.append_assoc]
    rfl
  · rw [follow_append, hfollow]
    obtain ⟨hin, hstill⟩ := (hmem k).mp hk
    rcases hin with rfl | hin
    · exact Set.mem_insert _ _
    · exact Set.mem_insert_of_mem _ ⟨hseen hin, hstill⟩
  · rw [follow_append, hfollow]
    show k ∈ insert key (seen \ gone) \ t.keys ↔ _
    by_cases hk : k = key
    · rw [if_pos hk, hk, ← hstays]
      simp
    · rw [if_neg hk, Set.mem_sdiff, Set.mem_insert_iff, Set.mem_sdiff, Set.mem_sdiff, hmem]
      have := hfrom k
      tauto

/-- The put of a `set` is reported, if the key stays. -/
theorem setWithExpiry_reports (now : Nat) (expiresAt : Option Nat) (hlisted : s.Listed)
    (hon : s.config.keyspaceNotificationsEnabled = true) :
    Reports s (s.setWithExpiry now key value expiresAt).2
      (s.inTransaction = false → s.config.Valid key value → s.Stays key value) := by
  by_cases hvalid : s.config.Valid key value
  · cases htx : s.transactionQueue with
    | none =>
        obtain ⟨new, hpending, hfollow⟩ := put_followed now expiresAt hlisted hvalid htx hon
        obtain ⟨hsub, hextra⟩ := hfollow s.keys subset_rfl
        refine ⟨new, hpending, ?_⟩
        have hfalse : s.inTransaction = false := by simp [inTransaction, htx]
        rw [eq_keys_iff hsub, imp_iff_right hfalse, imp_iff_right hvalid]
        constructor
        · intro h
          by_contra hgone
          exact h key ((hextra key).mpr (by rw [if_pos rfl]; exact hgone))
        · intro hstays k hk
          have hcase := (hextra k).mp hk
          split at hcase
          · exact hcase hstays
          · exact hcase.2 hcase.1
    | some queue =>
        rw [setWithExpiry_queued hvalid htx]
        exact (Reports.silent rfl).congr (iff_of_true rfl fun hfalse => by simp [inTransaction, htx] at hfalse)
  · obtain ⟨e, he⟩ := setWithExpiry_refused (s := s) now expiresAt hvalid
    rw [he]
    exact (Reports.refl s).congr (iff_of_true trivial fun _ h => absurd h hvalid)

end

/-- The keys of the pairs that an MSET puts: those before the first pair outside the limits. -/
def msetKeys (cfg : StoreConfig) (pairs : List (String × String)) : List String :=
  (pairs.takeWhile fun p => cfg.Valid p.1 (.str p.2)).map Prod.fst

/-- Each pair of the MSET stays at its turn, or a later one puts the same key. -/
def MsetStays (now : Nat) : List (String × String) → KvStore → Prop
  | [], _ => True
  | (key, value) :: pairs, s => s.config.Valid key (.str value) →
      (key ∈ msetKeys s.config pairs ∨ s.Stays key (.str value)) ∧
        MsetStays now pairs (s.set now key (.str value)).2

theorem msetKeys_accepted {cfg : StoreConfig} {key value : String} (pairs : List (String × String))
    (h : cfg.Valid key (.str value)) :
    msetKeys cfg ((key, value) :: pairs) = key :: msetKeys cfg pairs := by
  rw [msetKeys, List.takeWhile_cons, if_pos (by simpa using h)]
  rfl

theorem msetKeys_refused {cfg : StoreConfig} {key value : String} (pairs : List (String × String))
    (h : ¬ cfg.Valid key (.str value)) : msetKeys cfg ((key, value) :: pairs) = [] := by
  rw [msetKeys, List.takeWhile_cons, if_neg (by simpa using h)]
  rfl

/-- What is too much behind a put is made good by the later pairs just if what was too much before it
is made good by the put or by them, and the put stays or is put again. -/
theorem surplus_put_iff {key : String} {before after : Set String} {stays : Prop} {later : List String}
    (h : ∀ k, k ∈ after ↔ if k = key then ¬ stays else k ∈ before) :
    (∀ k ∈ after, k ∈ later) ↔ (∀ k ∈ before, k ∈ key :: later) ∧ (key ∈ later ∨ stays) := by
  constructor
  · intro hall
    refine ⟨fun k hk => ?_, ?_⟩
    · by_cases heq : k = key
      · exact heq ▸ List.mem_cons_self
      · exact List.mem_cons_of_mem _ (hall k ((h k).mpr (by rw [if_neg heq]; exact hk)))
    · by_cases hstays : stays
      · exact .inr hstays
      · exact .inl (hall key ((h key).mpr (by rw [if_pos rfl]; exact hstays)))
  · rintro ⟨hall, hkey⟩ k hk
    have hcase := (h k).mp hk
    split at hcase
    · next heq =>
        rw [heq]
        exact hkey.resolve_right hcase
    · next hne => exact (List.mem_cons.mp (hall k hcase)).resolve_left hne

/-- A key that a subscriber has too much stays so until a later pair puts it. -/
theorem mset_followed (now : Nat) (pairs : List (String × String)) :
    ∀ {s : KvStore}, s.Listed → s.transactionQueue = none →
      s.config.keyspaceNotificationsEnabled = true →
      ∃ new, (s.mset now pairs).2.pendingKeyspaceEvents = s.pendingKeyspaceEvents ++ new ∧
        ∀ seen, s.keys ⊆ seen → (follow seen new = (s.mset now pairs).2.keys ↔
          (∀ k ∈ seen \ s.keys, k ∈ msetKeys s.config pairs) ∧ MsetStays now pairs s) := by
  induction pairs with
  | nil =>
      intro s _ _ _
      refine ⟨[], (List.append_nil _).symm, fun seen hseen => (eq_keys_iff hseen).trans ?_⟩
      simp [msetKeys, MsetStays]
  | cons pair pairs ih =>
      intro s hlisted htx hon
      obtain ⟨key, value⟩ := pair
      rw [mset_cons_snd, MsetStays, set]
      by_cases hvalid : s.config.Valid key (.str value)
      · have hcfg : (s.setWithExpiry now key (.str value) none).2.config = s.config :=
          setWithExpiry_config
        have htx' : (s.setWithExpiry now key (.str value) none).2.transactionQueue = none := by
          have hsame : (s.setWithExpiry now key (.str value) none).2.inTransaction = s.inTransaction :=
            setWithExpiry_inTransaction
          simpa [inTransaction, htx] using hsame
        obtain ⟨new, hpending, hfollow⟩ := put_followed now none hlisted hvalid htx hon
        obtain ⟨new', hpending', hfollow'⟩ := ih (setWithExpiry_listed hlisted now key _ none) htx'
          (by rw [hcfg]; exact hon)
        rw [if_pos hvalid]
        refine ⟨new ++ new', ?_, fun seen hseen => ?_⟩
        · rw [hpending', hpending, List.append_assoc]
        · obtain ⟨hsub, hextra⟩ := hfollow seen hseen
          rw [follow_append, hfollow' _ hsub, hcfg, msetKeys_accepted pairs hvalid,
            surplus_put_iff hextra, imp_iff_right hvalid, and_assoc]
      · rw [if_neg hvalid]
        refine ⟨[], (List.append_nil _).symm, fun seen hseen => (eq_keys_iff hseen).trans ?_⟩
        simp [msetKeys_refused pairs hvalid, hvalid]

theorem mset_reports {s : KvStore} (now : Nat) (pairs : List (String × String)) (hlisted : s.Listed)
    (hon : s.config.keyspaceNotificationsEnabled = true) :
    Reports s (s.mset now pairs).2 (s.inTransaction = false → MsetStays now pairs s) := by
  cases htx : s.inTransaction with
  | false =>
      obtain ⟨new, hpending, hfollow⟩ := mset_followed now pairs hlisted
        (by simpa [inTransaction] using htx) hon
      refine ⟨new, hpending, (hfollow s.keys subset_rfl).trans ?_⟩
      simp
  | true =>
      have hdeferred := mset_deferred now pairs htx
      refine (Reports.silent hdeferred.pendingKeyspaceEvents).congr (iff_of_true ?_ (by simp))
      rw [keys, keys, hdeferred.contents]

/-! ## The other calls -/

section

variable (s : KvStore) (key : String)

theorem addToInt_pending (amount : Int64) :
    (s.addToInt key amount).2.pendingKeyspaceEvents = s.pendingKeyspaceEvents := by
  unfold addToInt
  split <;> rfl

theorem pushWith_pending (push : List String → List String → List String) (values : List String) :
    (s.pushWith push key values).2.pendingKeyspaceEvents = s.pendingKeyspaceEvents := by
  unfold pushWith
  split
  · rfl
  · split <;> rfl

theorem popWith_pending (pop : List String → Option (String × List String)) :
    (s.popWith pop key).2.pendingKeyspaceEvents = s.pendingKeyspaceEvents := by
  unfold popWith
  split
  · split <;> rfl
  · rfl
  · rfl

theorem hset_pending (fields : Fields) :
    (s.hset key fields).2.pendingKeyspaceEvents = s.pendingKeyspaceEvents := by
  unfold hset
  split
  · rfl
  · split <;> rfl

theorem hdel_pending (fields : List String) :
    (s.hdel key fields).2.pendingKeyspaceEvents = s.pendingKeyspaceEvents := by
  unfold hdel
  split <;> rfl

theorem addToField_pending {N : Type} (parse : String → Option N) (zero : N) (add : N → N → N)
    (show_ : N → String) (field : String) (amount : N) :
    (s.addToField parse zero add show_ key field amount).2.pendingKeyspaceEvents
      = s.pendingKeyspaceEvents := by
  unfold addToField
  split
  · rfl
  · split <;> rfl

theorem pfadd_pending (rt : Runtime) (values : List String) :
    (s.pfadd rt key values).2.pendingKeyspaceEvents = s.pendingKeyspaceEvents := by
  unfold pfadd
  split
  · rfl
  · split
    · rfl
    · split <;> rfl

theorem pfmerge_pending (sources : List String) :
    (s.pfmerge key sources).2.pendingKeyspaceEvents = s.pendingKeyspaceEvents := by
  rcases pfmerge_cases s key sources with ⟨e, he⟩ | ⟨merged, -, -, -, heq⟩
  · rw [he]
  · rw [heq]
    simp only
    split <;> rfl

theorem pfreserve_pending (precision : Nat) :
    (s.pfreserve key precision).2.pendingKeyspaceEvents = s.pendingKeyspaceEvents := by
  rcases pfreserve_cases s key precision with ⟨e, he⟩ | ⟨-, -, heq⟩
  · rw [he]
  · rw [heq]
    rfl

variable {s key}

theorem delete_reports (now : Nat) (hon : s.config.keyspaceNotificationsEnabled = true) :
    Reports s (s.delete now key).2 True := by
  unfold delete
  split
  · unfold queueOperation
    split <;> exact (Reports.silent rfl).congr (iff_of_true rfl trivial)
  · split
    · next entry hkey =>
        refine Reports.event none ⟨.delete, key, now⟩ ?_
          (emitKeyspaceEvent_pending _ now .delete key hon) (by simp)
        rw [emitKeyspaceEvent_contents]
        exact funext fun k => contents_erase s key k
    · exact Reports.refl s

theorem expire_reports (now ttl : Nat) (hon : s.config.keyspaceNotificationsEnabled = true) :
    Reports s (s.expire now key ttl).2 True := by
  unfold expire
  split
  · exact Reports.refl s
  · next entry hkey =>
      split
      · exact Reports.refl s
      · refine Reports.event (some { entry with expiresAt := checkedAdd now ttl })
          ⟨.set, key, now⟩ ?_ (emitKeyspaceEvent_pending _ now .set key hon) (by simp)
        rw [emitKeyspaceEvent_contents]
        exact funext fun k => contents_insert s key _ k

theorem persist_reports (now : Nat) (hon : s.config.keyspaceNotificationsEnabled = true) :
    Reports s (s.persist now key).2 True := by
  unfold persist
  split
  · exact Reports.refl s
  · next entry hkey =>
      split
      · exact Reports.refl s
      · refine Reports.event (some { entry with expiresAt := none })
          ⟨.set, key, now⟩ ?_ (emitKeyspaceEvent_pending _ now .set key hon) (by simp)
        rw [emitKeyspaceEvent_contents]
        exact funext fun k => contents_insert s key _ k

/-- A string that grows in place needs no report. -/
theorem append_reports (now : Nat) (value : String) (hlisted : s.Listed)
    (hon : s.config.keyspaceNotificationsEnabled = true) :
    Reports s (s.append now key value).2 (s.inTransaction = false → s.contents key = none →
      s.config.Valid key (.str value) → s.Stays key (.str value)) := by
  cases hkey : s.store[key]? with
  | none =>
      have hcell : s.contents key = none := hkey
      rw [append_absent s key now value hkey]
      refine (setWithExpiry_reports now none hlisted hon).congr ?_
      simp [hcell]
  | some entry =>
      have hcell : s.contents key = some entry := hkey
      have hpending : (s.append now key value).2.pendingKeyspaceEvents = s.pendingKeyspaceEvents := by
        unfold append
        rw [hkey]
        obtain ⟨old, expiresAt⟩ := entry
        cases old <;> rfl
      refine (Reports.silent_one (append_present s key now value hkey).contents hpending).congr ?_
      rw [hcell]
      simp [CellOp.appendStr, CellOp.onEntry]

theorem pfmerge_reports (sources : List String) :
    Reports s (s.pfmerge key sources).2
      (s.contents key = none → ∀ count, (s.pfmerge key sources).1 ≠ .ok count) := by
  rcases pfmerge_cases s key sources with ⟨e, he⟩ | ⟨merged, -, -, -, heq⟩
  · rw [he]
    exact (Reports.refl s).congr (iff_of_true trivial (by simp))
  · have hstore : (s.pfmerge key sources).2.store
        = s.store.insert key ⟨.hyperLogLog merged, none⟩ := by
      rw [heq]
      simp only
      split <;> rfl
    refine (Reports.silent_put hstore (pfmerge_pending s key sources)).congr ?_
    rw [heq]
    simp

theorem pfreserve_reports (precision : Nat) :
    Reports s (s.pfreserve key precision).2 (s.config.ValidKey key → s.contents key ≠ none) := by
  rcases pfreserve_cases s key precision with ⟨e, he⟩ | ⟨hvalid, hcell, heq⟩
  · rw [he]
    refine (Reports.refl s).congr (iff_of_true trivial fun hvalid hnone => ?_)
    rw [pfreserve_put precision hvalid hnone] at he
    cases he
  · rw [heq]
    have hput : Reports s (s.insertEntry key ⟨.hyperLogLog (HyperLogLog.new precision), none⟩
        (estimateValueSize (.hyperLogLog (HyperLogLog.new precision)))) (s.contents key ≠ none) :=
      Reports.silent_put rfl rfl
    exact hput.congr (by simp [hvalid])

theorem removeAll_reports (now : Nat) (due : List String) :
    ∀ {s : KvStore}, s.config.keyspaceNotificationsEnabled = true →
      Reports s (due.foldl (removeExpired now) s) True := by
  induction due with
  | nil => exact fun _ => Reports.refl _
  | cons key due ih =>
      intro s hon
      have hone : Reports s (s.removeExpired now key) True :=
        Reports.event none ⟨.expired, key, now⟩ (removeExpired_contents now s key)
          (emitKeyspaceEvent_pending _ now .expired key hon) (by simp)
      have hcfg : (s.removeExpired now key).config = s.config := emitKeyspaceEvent_config ..
      exact hone.trans (ih (by rw [hcfg]; exact hon))

/-- The last operation of the queue on each key deletes it exactly if it was missing before. -/
def QueueKeepsKeys (ops : List TransactionOp) (m : String → Option ValueWithTTL) : Prop :=
  ∀ k op, (ops.filter fun op => op.cell.1 = k).getLast? = some op → (op = .delete k ↔ m k = none)

/-- Every queued operation but a delete leaves its key present. -/
theorem cell_eq_none_iff (op : TransactionOp) (e : Option ValueWithTTL) :
    op.cell.2.onEntry e = none ↔ op = .delete op.cell.1 := by
  cases op with
  | set key value expiresAt => simp [TransactionOp.cell, CellOp.onEntry]
  | delete key => simp [TransactionOp.cell, CellOp.onEntry]
  | incr key | decr key | incrBy key amount =>
      cases e <;> simp [TransactionOp.cell, TransactionOp.addCell, CellOp.onEntry]
  | append key value =>
      cases e <;> simp [TransactionOp.cell, TransactionOp.appendCell, CellOp.onEntry]

theorem execOps_eq_none_iff (ops : List TransactionOp) (k : String) :
    ∀ s : KvStore, (execOps s ops).2.contents k = none ↔
      (ops.filter fun op => op.cell.1 = k).getLast?.elim (s.contents k = none) (· = .delete k) := by
  induction ops with
  | nil => exact fun s => Iff.rfl
  | cons op ops ih =>
      intro s
      have hone : (s.execOp op).2.contents
          = Function.update s.contents op.cell.1 (op.cell.2.onEntry (s.contents op.cell.1)) :=
        execOp_contents s op
      rw [execOps, ih, hone, List.filter_cons]
      by_cases hk : op.cell.1 = k
      · -- a later operation on the key decides, or else this one
        rw [if_pos (by simpa using hk), List.getLast?_cons, ← hk, Function.update_self,
          cell_eq_none_iff]
        cases (ops.filter fun op' => decide (op'.cell.1 = op.cell.1)).getLast? <;> rfl
      · rw [if_neg (by simpa using hk), Function.update_of_ne (Ne.symm hk)]

/-- Nothing of what EXEC carries out is reported. -/
theorem exec_pending (s : KvStore) : s.exec.2.pendingKeyspaceEvents = s.pendingKeyspaceEvents := by
  unfold exec
  split
  · rfl
  · exact (execOps_frame _ _).pendingKeyspaceEvents

theorem exec_reports (s : KvStore) : Reports s s.exec.2
    (QueueKeepsKeys (s.transactionQueue.getD []) s.contents) := by
  have hnone : ∀ k, s.exec.2.contents k = none ↔
      ((s.transactionQueue.getD []).filter fun op => op.cell.1 = k).getLast?.elim
        (s.contents k = none) (· = .delete k) := by
    intro k
    unfold exec
    cases htx : s.transactionQueue with
    | none => exact Iff.rfl
    | some queue => exact execOps_eq_none_iff queue k { s with transactionQueue := none }
  refine (Reports.silent (exec_pending s)).congr ⟨fun h k op hlast => ?_, fun h => ?_⟩
  · have hkey := Set.ext_iff.mp h k
    rw [mem_keys_iff, mem_keys_iff, not_iff_not, hnone, hlast] at hkey
    exact hkey.symm
  · ext k
    rw [mem_keys_iff, mem_keys_iff, not_iff_not, hnone]
    cases hlast : ((s.transactionQueue.getD []).filter fun op => decide (op.cell.1 = k)).getLast? with
    | none => exact Iff.rfl
    | some op => exact (h k op hlast).symm

end

end KvStore

end Daikon
