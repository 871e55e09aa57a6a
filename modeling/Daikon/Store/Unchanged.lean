/-
# Daikon.Store.Unchanged -- when a call finds nothing to change at a key

A mutating method of the store can come and go without a trace: an `hset` of what the hash has already,
a `delete` of a key that is not there, a PFADD of values that raise no register, a pop of an empty list,
a put that is refused or that an open transaction queues. `Write.Keeps` says of every method, from the
entries before the call and the limits alone, when that is so for a given key, and `write_keeps_iff`
shows that the call leaves the entry of the key as it is in these cases and in no others.

What a `put` evicts to make room is a different thing: it strikes keys that the call does not name, by
the order of the LRU list and not by what the call is for. So the question is asked of the same store
with eviction switched off (`uncapped`). `write_uncapped` gives the map after a keyed call there as the
run of its cells, and `StoreCall.run_within` brings the answer back: with eviction on, a call leaves what
it leaves without, some of it evicted.

Two kinds of method are told apart, as in `Daikon.Store.Isolation`. Those that no transaction holds back
act on one key each, and the predicate for them is the one from there (`Write.LeavesAlone`), asked of a
store whose transaction may be closed. Those that a transaction queues are puts and removals; for these
the predicate also names the limits that refuse them. MSET puts its pairs one by one up to the first that
is outside the limits, so that the last pair before that decides what a key ends with (`put_pairs`).
-/
import Daikon.Store.Evict
import Daikon.Store.Isolation
import Daikon.Wal.Keys

namespace Daikon

open Lib.KeyedLog (run)

/-- A call of a method that changes entries. -/
inductive StoreCall where
  | write (w : Write)
  | pfreserve (key : String) (precision : Nat)

/-- Make the call at the given time. -/
def StoreCall.run (rt : Runtime) (s : KvStore) (now : Nat) : StoreCall → KvStore
  | .write w => (s.write rt now w).2
  | .pfreserve key precision => (s.pfreserve key precision).2

/-- The same store with eviction switched off. -/
def KvStore.uncapped (s : KvStore) : KvStore :=
  s.setConfig { s.config with lruEvictionEnabled := false }

/-! ## Without eviction -/

namespace KvStore

/-- Without eviction, a keyed call does what its cells say. -/
theorem write_uncapped (rt : Runtime) (s : KvStore) (now : Nat) {w : Write} (hw : w.Keyed) :
    (s.uncapped.write rt now w).2.contents
      = run (entryUpdates (w.cells rt s.config s.inTransaction now)) s.contents := by
  have hmoves := write_refines rt s.uncapped now hw (.inr (.inl rfl))
  rw [hmoves.contents, @cells_congr rt s.config s.uncapped.config rfl rfl]
  rfl

/-- A call changes only keys that it names. -/
theorem write_changes_keys (rt : Runtime) (s : KvStore) (now : Nat) {w : Write} {k : String}
    (hk : k ∉ w.keys) : (s.uncapped.write rt now w).2.contents k = s.contents k := by
  by_cases hw : w.Keyed
  · rw [write_uncapped rt s now hw]
    refine Lib.KeyedLog.run_of_ne (fun u hu => ?_) _
    obtain ⟨c, hc, rfl⟩ := List.mem_map.mp hu
    exact fun heq => hk (heq ▸ mem_keys_of_mem_cells hc)
  · cases w with
    | pfadd key values =>
        have hne : k ≠ key := fun heq => hk (by simp [Write.keys, heq])
        exact (pfadd_puts s.uncapped rt key values).contents_of_ne hne
    | pfmerge destination sources =>
        have hne : k ≠ destination := fun heq => hk (by simp [Write.keys, heq])
        exact (pfmerge_puts s.uncapped destination sources).contents_of_ne hne
    | _ => exact absurd trivial hw

/-- The HyperLogLog calls read nothing of the eviction settings. -/
theorem pfadd_uncapped (s : KvStore) (rt : Runtime) (key : String) (values : List String) :
    (s.uncapped.pfadd rt key values).2.contents = (s.pfadd rt key values).2.contents := by
  unfold pfadd
  rw [show s.uncapped.validateKey key = s.validateKey key from rfl,
    show s.uncapped.store[key]? = s.store[key]? from rfl]
  cases s.validateKey key with
  | error e => rfl
  | ok _ =>
      by_cases hempty : values.isEmpty = true
      · rw [if_pos hempty, if_pos hempty]
        rfl
      · rw [if_neg hempty, if_neg hempty]
        simp only
        split <;> rfl

theorem mergeSources_uncapped (s : KvStore) (destination : String) (sources : List String) :
    ∀ merged, s.uncapped.mergeSources destination sources merged
      = s.mergeSources destination sources merged := by
  induction sources with
  | nil => intro merged; rfl
  | cons source sources ih =>
      intro merged
      rw [mergeSources, mergeSources, show s.uncapped.store[source]? = s.store[source]? from rfl]
      simp only [ih]

theorem mergedSketch_uncapped (s : KvStore) (destination : String) (sources : List String) :
    s.uncapped.mergedSketch destination sources = s.mergedSketch destination sources := by
  unfold mergedSketch
  rw [show s.uncapped.store = s.store from rfl,
    funext (mergeSources_uncapped s destination sources)]

theorem pfmerge_uncapped (s : KvStore) (destination : String) (sources : List String) :
    (s.uncapped.pfmerge destination sources).2.contents = (s.pfmerge destination sources).2.contents := by
  have hmerge : s.uncapped.mergeSources destination sources = s.mergeSources destination sources :=
    funext (mergeSources_uncapped s destination sources)
  unfold pfmerge
  rw [show s.uncapped.validateKey destination = s.validateKey destination from rfl,
    show s.uncapped.store = s.store from rfl, hmerge]
  cases s.validateKey destination with
  | error e => rfl
  | ok _ =>
      by_cases hempty : sources.isEmpty = true
      · rw [if_pos hempty, if_pos hempty]
        rfl
      · rw [if_neg hempty, if_neg hempty]
        simp only
        split
        · rfl
        · split <;> rfl

theorem pfreserve_uncapped (s : KvStore) (key : String) (precision : Nat) :
    (s.uncapped.pfreserve key precision).2.contents = (s.pfreserve key precision).2.contents := by
  unfold pfreserve
  rw [show s.uncapped.validateKey key = s.validateKey key from rfl,
    show s.uncapped.store = s.store from rfl]
  cases s.validateKey key with
  | error e => rfl
  | ok _ =>
      simp only
      split <;> rfl

end KvStore

/-- With eviction, a call leaves what it leaves without, some of it evicted. -/
theorem StoreCall.run_within (rt : Runtime) (s : KvStore) (now : Nat) (call : StoreCall) :
    Within (call.run rt s now).contents (call.run rt s.uncapped now).contents := by
  cases call with
  | pfreserve key precision => exact Within.of_eq (s.pfreserve_uncapped key precision).symm
  | write w =>
      by_cases hw : w.Keyed
      · intro k
        simp only [StoreCall.run]
        rw [KvStore.write_uncapped rt s now hw]
        exact KvStore.write_within rt s now hw k
      · cases w with
        | pfadd key values => exact Within.of_eq (s.pfadd_uncapped rt key values).symm
        | pfmerge destination sources => exact Within.of_eq (s.pfmerge_uncapped destination sources).symm
        | _ => exact absurd trivial hw

/-! ## What a call finds -/

/-- The put is refused, or queued by an open transaction, or finds its entry there already. -/
def KvStore.KeepsPut (s : KvStore) (key : String) (value : Value) (expiresAt : Option Nat) : Prop :=
  s.inTransaction = false → s.config.Valid key value → s.contents key = some ⟨value, expiresAt⟩

/-- The pairs that MSET gets to: those before the first that is outside the limits. -/
def StoreConfig.acceptedPairs (cfg : StoreConfig) (pairs : List (String × String)) :
    List (String × String) :=
  pairs.takeWhile fun pair => cfg.Valid pair.1 (.str pair.2)

/-- What these pairs put at the key in the end, if they name it. -/
def lastAt (k : String) (pairs : List (String × String)) : Option String :=
  ((pairs.filter fun pair => pair.1 = k).map Prod.snd).getLast?

theorem lastAt_cons (k : String) (pair : String × String) (pairs : List (String × String)) :
    lastAt k (pair :: pairs) = (lastAt k pairs).or (if pair.1 = k then some pair.2 else none) := by
  unfold lastAt
  by_cases hk : pair.1 = k
  · simp only [List.filter_cons, decide_eq_true hk, if_true, List.map_cons, List.getLast?_cons, if_pos hk]
    cases (((pairs.filter fun pair => pair.1 = k).map Prod.snd).getLast?) <;> rfl
  · simp [hk]

/-- Eviction aside, the call finds nothing to change at the key. -/
def Write.Keeps (rt : Runtime) (s : KvStore) (now : Nat) (k : String) : Write → Prop
  | set key value | getset key value => key = k → s.KeepsPut key value none
  | setWithTtl key value ttl => key = k → s.KeepsPut key value (checkedAdd now ttl)
  | delete key => key = k → s.inTransaction = false → s.contents key = none
  | append key value => key = k → (∀ old, s.values key = some (.str old) → value = "") ∧
      (s.contents key = none → s.inTransaction = false → ¬ s.config.Valid key (.str value))
  | mset pairs => s.inTransaction = false →
      ∀ value, lastAt k (s.config.acceptedPairs pairs) = some value →
        s.contents k = some ⟨.str value, none⟩
  | pfmerge destination sources => destination = k →
      (pfmerge destination sources).LeavesAlone rt s now
  | w => k ∈ w.keys → w.LeavesAlone rt s now

/-- The same of any call. -/
def StoreCall.Keeps (rt : Runtime) (s : KvStore) (now : Nat) (k : String) : StoreCall → Prop
  | .write w => w.Keeps rt s now k
  | .pfreserve key _ => key = k → s.config.ValidKey key → s.contents key ≠ none

namespace CellOp

variable {cfg : StoreConfig} {inTx : Bool} {key : String} {e : Option ValueWithTTL}

theorem assignIf_idle_iff {value : Value} {expiresAt : Option Nat} :
    (assignIf cfg inTx key value expiresAt).Idle e ↔
      (inTx = false → cfg.Valid key value → e = some ⟨value, expiresAt⟩) := by
  unfold assignIf
  split
  · next h => simp only [Idle, onEntry, h.1, h.2, true_imp_iff, eq_comm]
  · next h => exact iff_of_true (nop_idle e) fun htx hvalid => absurd ⟨hvalid, htx⟩ h

theorem appendStr_idle_iff_both {value : String} : (appendStr cfg inTx key value).Idle e ↔
    (∀ old, e.map ValueWithTTL.value = some (.str old) → value = "") ∧
      (e = none → inTx = false → ¬ cfg.Valid key (.str value)) := by
  cases e with
  | none =>
      rw [appendStr, edit_idle_none]
      split
      · next h => simp [h.1, h.2]
      · next h => simpa using fun htx hvalid => h ⟨hvalid, htx⟩
  | some entry =>
      obtain ⟨old, expiresAt⟩ := entry
      rw [appendStr, edit_idle_some]
      cases old <;> simp

/-- The cells of an MSET put, at each key, what the last pair at it has. -/
theorem run_assignAll (pairs : List (String × String)) (k : String) :
    ∀ m : String → Option ValueWithTTL, run (entryUpdates (assignAll cfg false pairs)) m k
      = ((lastAt k (cfg.acceptedPairs pairs)).map fun value => ⟨.str value, none⟩).or (m k) := by
  induction pairs with
  | nil => intro m; rfl
  | cons pair pairs ih =>
      intro m
      obtain ⟨key, value⟩ := pair
      by_cases hvalid : cfg.Valid key (.str value)
      · have hop : assignIf cfg false key (.str value) none = assign (.str value) none :=
          if_pos ⟨hvalid, rfl⟩
        have haccepted :
            cfg.acceptedPairs ((key, value) :: pairs) = (key, value) :: cfg.acceptedPairs pairs := by
          rw [StoreConfig.acceptedPairs, List.takeWhile_cons, if_pos (by simpa using hvalid)]
          rfl
        have hcells : entryUpdates (assignAll cfg false ((key, value) :: pairs))
            = ⟨key, (assign (.str value) none).onEntry, (assign (.str value) none).bytes⟩ ::
              entryUpdates (assignAll cfg false pairs) := by
          rw [assignAll, if_pos hvalid, hop]
          rfl
        rw [hcells, haccepted, Lib.KeyedLog.run_cons, ih, lastAt_cons]
        -- a pair further on at the same key decides, else this one does
        cases lastAt k (cfg.acceptedPairs pairs) with
        | some last => rfl
        | none =>
            by_cases hk : key = k
            · subst hk
              simp [Lib.KeyedLog.apply, onEntry]
            · simp [Lib.KeyedLog.apply, hk, Function.update_of_ne (Ne.symm hk)]
      · rw [assignAll, if_neg hvalid, StoreConfig.acceptedPairs, List.takeWhile_cons,
          if_neg (by simpa using hvalid)]
        rfl

end CellOp

namespace KvStore

variable {rt : Runtime} {s : KvStore} {now : Nat} {k : String}

/-- A call with one cell keeps an entry where the cell does. -/
theorem keeps_of_cell (w : Write) {key : String} {op : CellOp} (hw : w.Keyed)
    (hcells : w.cells rt s.config s.inTransaction now = [(key, op)]) :
    (s.uncapped.write rt now w).2.contents k = s.contents k ↔ (key = k → op.Idle (s.contents key)) := by
  rw [write_uncapped rt s now hw, hcells]
  show Function.update s.contents key (op.onEntry (s.contents key)) k = s.contents k ↔ _
  by_cases hk : key = k
  · subst hk
    simp [CellOp.Idle]
  · simp [hk, Function.update_of_ne (Ne.symm hk)]

/-- Where nothing happens at other keys, the entry of the key is kept exactly if the map is. -/
theorem keeps_of_others {s' : KvStore} (hothers : ∀ key, key ≠ k → s'.contents key = s.contents key) :
    s'.contents k = s.contents k ↔ s'.contents = s.contents := by
  refine ⟨fun h => funext fun key => ?_, fun h => congrFun h k⟩
  by_cases hkey : key = k
  · rw [hkey, h]
  · exact hothers key hkey

/-- A call that acts at once, on one key. -/
theorem keeps_of_atOnce {w : Write} (key : String) (hw : w.AtOnce)
    (hothers : ∀ k, k ≠ key → (s.uncapped.write rt now w).2.contents k = s.contents k)
    (hsame : w.LeavesAlone rt s.uncapped now ↔ w.LeavesAlone rt s now) :
    (s.uncapped.write rt now w).2.contents k = s.contents k ↔ (key = k → w.LeavesAlone rt s now) := by
  by_cases hk : key = k
  · subst hk
    simp only [true_imp_iff, ← hsame]
    rw [keeps_of_others hothers]
    exact atOnce_contents_iff rt s.uncapped now hw
  · exact iff_of_true (hothers k (Ne.symm hk)) fun heq => absurd heq hk

theorem keeps_of_key {w : Write} {key : String} (hw : w.AtOnce) (hkeys : w.keys = [key])
    (hsame : w.LeavesAlone rt s.uncapped now ↔ w.LeavesAlone rt s now) :
    (s.uncapped.write rt now w).2.contents k = s.contents k ↔
      (k ∈ w.keys → w.LeavesAlone rt s now) := by
  rw [keeps_of_atOnce key hw (fun k hk => write_changes_keys rt s now ?_) hsame, hkeys,
    List.mem_singleton, eq_comm]
  rw [hkeys, List.mem_singleton]
  exact hk

/-- Eviction aside, a call leaves the entry of a key as it is if and only if it finds nothing to change
there. -/
theorem write_keeps_iff (w : Write) :
    (s.uncapped.write rt now w).2.contents k = s.contents k ↔ w.Keeps rt s now k := by
  cases w with
  | set key value =>
      exact (keeps_of_cell (.set key value) trivial rfl).trans
        (imp_congr_right fun _ => CellOp.assignIf_idle_iff)
  | getset key value =>
      exact (keeps_of_cell (.getset key value) trivial rfl).trans
        (imp_congr_right fun _ => CellOp.assignIf_idle_iff)
  | setWithTtl key value ttl =>
      exact (keeps_of_cell (.setWithTtl key value ttl) trivial rfl).trans
        (imp_congr_right fun _ => CellOp.assignIf_idle_iff)
  | delete key =>
      refine (keeps_of_cell (.delete key) trivial rfl).trans (imp_congr_right fun _ => ?_)
      cases s.inTransaction with
      | false => exact eq_comm.trans (by simp [CellOp.onEntry])
      | true => simp [CellOp.nop_idle]
  | append key value =>
      exact (keeps_of_cell (.append key value) trivial rfl).trans
        (imp_congr_right fun _ => CellOp.appendStr_idle_iff_both)
  | mset pairs =>
      rw [write_uncapped rt s now (w := .mset pairs) trivial]
      cases htx : s.inTransaction with
      | false =>
          simp only [Write.cells, CellOp.run_assignAll, Write.Keeps, htx, true_imp_iff]
          cases lastAt k (s.config.acceptedPairs pairs) with
          | none => simp
          | some value => simp [eq_comm]
      | true =>
          have hqueued := (mset_deferred (s := s.uncapped) now pairs htx).contents
          have hmoved := write_uncapped rt s now (w := .mset pairs) trivial
          rw [htx] at hmoved
          rw [← hmoved]
          refine iff_of_true (congrFun hqueued k) fun hclosed => ?_
          rw [htx] at hclosed
          cases hclosed
  | pfmerge destination sources =>
      refine keeps_of_atOnce destination trivial
        (fun k hk => (pfmerge_puts s.uncapped destination sources).contents_of_ne hk) ?_
      simp only [Write.LeavesAlone, mergedSketch_uncapped s destination sources]
      rfl
  | _ => exact keeps_of_key trivial rfl Iff.rfl

theorem pfreserve_keeps_iff (key : String) (precision : Nat) :
    (s.uncapped.pfreserve key precision).2.contents k = s.contents k ↔
      (key = k → s.config.ValidKey key → s.contents key ≠ none) := by
  rw [pfreserve_uncapped]
  have hothers : ∀ k, k ≠ key → (s.pfreserve key precision).2.contents k = s.contents k := by
    intro k hk
    rcases pfreserve_cases s key precision with ⟨e, he⟩ | ⟨-, -, heq⟩
    · rw [he]
    · rw [heq]
      exact (PutsAt.insert _ _).contents_of_ne hk
  by_cases hk : key = k
  · subst hk
    simp only [true_imp_iff]
    exact (keeps_of_others hothers).trans (pfreserve_contents_iff key precision)
  · exact iff_of_true (hothers k (Ne.symm hk)) fun heq => absurd heq hk

end KvStore

/-- The same of any call. -/
theorem StoreCall.keeps_iff {rt : Runtime} {s : KvStore} {now : Nat} {k : String} (call : StoreCall) :
    (call.run rt s.uncapped now).contents k = s.contents k ↔ call.Keeps rt s now k := by
  cases call with
  | write w => exact KvStore.write_keeps_iff w
  | pfreserve key precision => exact KvStore.pfreserve_keeps_iff key precision

end Daikon
