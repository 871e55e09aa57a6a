/-
# Daikon.Store.Budget -- the memory cap

The loop of `enforce_memory_limit` runs on the byte counter, and only behind a `set`. Two things follow.
A counter ahead of the stored bytes makes it evict data that is within the cap, and only that does
(`no_spurious_eviction_iff`). The stored bytes stay within the cap as long as calls that are not
followed by the loop have room for what they add, and the counter is not behind when the loop runs
(`cap_holds`).

`no_spurious_eviction_iff` is about one `set` in a state that a run has reached; `cap_holds` is about runs.
For both the point is the relation between three numbers: the cap, the bytes that are stored and the bytes
that are counted. The loop compares the first with the third, and what is asked for is a relation of the
first with the second.

The recency list enters in one place. The loop ends when the list is used up, so it brings the counter under
the cap only if the list has every stored key (`Daikon.Store.Listed`): then a loop that has used it up has
emptied the store. That is why the results are about states that methods reach, and not about any record of
a store.
-/
import Daikon.Lib.Run
import Daikon.Store.Listed
import Daikon.Store.Text
import Daikon.Store.Victims

namespace Daikon

open Lib.Run (Always Guarded)

namespace KvStore

/-! ## Where the loop stops -/

theorem enforceLoop_stops (now : Nat) (keys : List String) :
    ∀ s : KvStore, s.lruOrder = keys →
      (enforceLoop now keys s).stats.memoryBytes ≤ s.config.maxMemoryBytes ∨
        (enforceLoop now keys s).lruOrder = [] := by
  induction keys with
  | nil => exact fun s hlru => .inr hlru
  | cons lruKey rest ih =>
      intro s hlru
      unfold enforceLoop
      split
      · rw [← evictHead_config s now lruKey rest]
        exact ih _ evictHead_lruOrder
      · next hle => exact .inl (by omega)

/-- A loop that finds the counter over the cap, and a stored key in the list, evicts something. -/
theorem enforceLoop_evicts (now : Nat) (keys : List String) :
    ∀ s : KvStore, s.config.maxMemoryBytes < s.stats.memoryBytes → ∀ k ∈ keys, s.contents k ≠ none →
      (enforceLoop now keys s).contents ≠ s.contents := by
  induction keys with
  | nil => intro s _ k hk; cases hk
  | cons lruKey rest ih =>
      intro s hover k hk hstored
      unfold enforceLoop
      rw [if_pos hover]
      obtain ⟨hcontents, hmem⟩ := evictHead_effect s now lruKey rest
      by_cases hhead : s.contents lruKey = none
      · have hsame : (s.evictHead now lruKey rest).contents = s.contents := by
          rw [hcontents, ← hhead, Function.update_eq_self]
        rcases List.mem_cons.mp hk with rfl | hk
        · exact absurd hhead hstored
        · rw [← hsame]
          refine ih _ ?_ k hk (hsame ▸ hstored)
          rw [evictHead_config, hmem, hhead, cellSize_none]
          omega
      · -- the head of the list goes, and nothing brings it back
        intro hsame
        have hgone : (s.evictHead now lruKey rest).contents lruKey = none := by
          rw [hcontents, Function.update_self]
        have hlater := enforceLoop_within now rest (s.evictHead now lruKey rest) lruKey
        rw [hsame, hgone, or_self] at hlater
        exact hhead hlater

theorem valueBytes_of_lruOrder_nil {s : KvStore} (h : s.Listed) (hlru : s.lruOrder = []) :
    s.valueBytes = 0 := by
  have hempty : s.store = ∅ := by
    apply Std.ExtTreeMap.ext_getElem?
    intro k
    have hout : k ∉ s.store := fun hin => by
      have := h k hin
      rw [hlru] at this
      cases this
    rw [Std.ExtTreeMap.getElem?_eq_none hout]
    simp
  rw [valueBytes, hempty]
  exact Lib.Weight.total_empty entrySize

/-! ## Data within the cap -/

/-- The true total with this value under the key. -/
def bytesWith (s : KvStore) (key : String) (value : Value) : Nat :=
  Lib.Weight.total entrySize (s.store.insert key ⟨value, none⟩)

/-- If the data is within the cap, the `set` evicts nothing and the value reads back. -/
def Spares (s : KvStore) (now : Nat) (key : String) (value : Value) : Prop :=
  s.bytesWith key value ≤ s.config.maxMemoryBytes →
    (s.set now key value).2.contents = Function.update s.contents key (some ⟨value, none⟩) ∧
      ∀ now', (s.set now key value).2.get now' key = some value

theorem get_of_contents {s : KvStore} {key : String} {value : Value}
    (h : s.contents key = some ⟨value, none⟩) (now : Nat) : s.get now key = some value := by
  unfold get
  rw [show s.store[key]? = _ from h]
  rfl

theorem set_valid {s : KvStore} {now : Nat} {key : String} {value : Value}
    (h : (s.set now key value).1 = .ok ()) : s.config.Valid key value := by
  by_contra hrefused
  obtain ⟨e, he⟩ := setWithExpiry_refused (s := s) now none hrefused
  rw [set, he] at h
  cases h

/-- After a `set` the contents are the old ones with the value in place if and only if the counter
stays within the cap. -/
theorem set_evicts_nothing_iff {s : KvStore} (now : Nat) {key : String} {value : Value}
    (hcapped : s.config.Capped) (htx : s.transactionQueue = none) (hvalid : s.config.Valid key value) :
    (s.set now key value).2.contents = Function.update s.contents key (some ⟨value, none⟩) ↔
      s.stats.memoryBytes + estimateValueSize value ≤ s.config.maxMemoryBytes := by
  have hput : (s.insertEntry key ⟨value, none⟩ (estimateValueSize value)).contents
      = Function.update s.contents key (some ⟨value, none⟩) := funext fun k => contents_insert s key _ k
  constructor
  · intro hall
    by_contra hover
    rw [set, setWithExpiry_put hvalid htx, if_pos ⟨hcapped.cap, hcapped.lru⟩,
      emitKeyspaceEvent_contents, enforceMemoryLimit_capped (by exact hcapped.cap)] at hall
    -- the key itself is in the list, and in the store
    refine enforceLoop_evicts now _ (s.insertEntry key ⟨value, none⟩ (estimateValueSize value))
      (Nat.lt_of_not_le hover) key (mem_updateLru_iff.mpr (.inl rfl)) ?_ (hall.trans hput.symm)
    rw [hput, Function.update_self]
    simp
  · intro hroom
    rw [set, setWithExpiry_fits hvalid htx (.inr (.inr hroom)), emitKeyspaceEvent_contents]
    exact hput

/-- In every state that a run of a store reaches, with eviction on and a cap: a `set` that is accepted
outside a transaction spares data within the cap if and only if, for such data, the counter with the
size of the new value on top is within the cap too. -/
theorem no_spurious_eviction_iff (rt : Runtime) (config : StoreConfig) (cs : List (Nat × Method))
    (now : Nat) (key : String) (value : Value)
    (hcapped : (calls rt (withConfig config) cs).config.Capped)
    (htx : (calls rt (withConfig config) cs).inTransaction = false)
    (hok : ((calls rt (withConfig config) cs).set now key value).1 = .ok ()) :
    (calls rt (withConfig config) cs).Spares now key value ↔
      ((calls rt (withConfig config) cs).bytesWith key value
          ≤ (calls rt (withConfig config) cs).config.maxMemoryBytes →
        (calls rt (withConfig config) cs).stats.memoryBytes + estimateValueSize value
          ≤ (calls rt (withConfig config) cs).config.maxMemoryBytes) := by
  generalize calls rt (withConfig config) cs = s at *
  have hnone : s.transactionQueue = none := by simpa [inTransaction] using htx
  have hiff := set_evicts_nothing_iff now hcapped hnone (set_valid hok)
  apply imp_congr_right
  intro _
  constructor
  · exact fun h => hiff.mp h.1
  · intro h
    have hall := hiff.mpr h
    refine ⟨hall, get_of_contents ?_⟩
    rw [hall, Function.update_self]

/-- Five bytes: `a` has been evicted for `b`, and there are three bytes at `b`. -/
def evictedRun : List (Nat × Method) :=
  [(0, .write (.set "a" (.str "aaa"))), (0, .write (.set "b" (.str "bbb")))]

/-- Two more bytes are within the cap: `b` stays. -/
theorem no_spurious_eviction_iff_third :
    (calls .strings (withConfig { maxMemoryBytes := 5 }) evictedRun).Spares 0 "k" (.str "cc") :=
  (no_spurious_eviction_iff .strings { maxMemoryBytes := 5 } evictedRun 0 "k" (.str "cc")
    ⟨by decide +kernel, by decide +kernel⟩ (by decide +kernel) (by decide +kernel)).mpr
    fun _ => by decide +kernel

/-- Three bytes, `aa` and then `b` at `k`: one byte is stored and three are counted. -/
def overcountedRun : List (Nat × Method) :=
  [(0, .write (.set "k" (.str "aa"))), (0, .write (.set "k" (.str "b")))]

/-- One more byte would be within the cap, and its `set` is accepted and evicts `k`. -/
theorem eviction_within_cap :
    let s := calls .strings (withConfig { maxMemoryBytes := 3 }) overcountedRun
    s.config.Capped ∧ s.inTransaction = false ∧ (s.set 0 "j" (.str "c")).1 = .ok () ∧
      ¬ s.Spares 0 "j" (.str "c") := by
  refine ⟨⟨by decide +kernel, by decide +kernel⟩, by decide +kernel, by decide +kernel, fun h => ?_⟩
  have hfits : (calls .strings (withConfig { maxMemoryBytes := 3 }) overcountedRun).bytesWith "j"
      (.str "c") ≤ 3 := by decide +kernel
  have hgone : ((calls .strings (withConfig { maxMemoryBytes := 3 }) overcountedRun).set 0 "j"
      (.str "c")).2.contents "k" = none := by decide +kernel
  have hkept : (calls .strings (withConfig { maxMemoryBytes := 3 }) overcountedRun).contents "k"
      = some ⟨.str "b", none⟩ := by decide +kernel
  have hall := congrFun (h hfits).1 "k"
  rw [hgone, Function.update_of_ne (by decide), hkept] at hall
  cases hall

/-! ## The cap over a run -/

/-- The stored bytes are within the cap. -/
def UnderCap (s : KvStore) : Prop := s.valueBytes ≤ s.config.maxMemoryBytes

/-- There is room for what the operation makes of the entry at the key. -/
def Room (s : KvStore) (cell : String × CellOp) : Prop :=
  s.valueBytes + cellSize (cell.2.onEntry (s.contents cell.1))
    ≤ s.config.maxMemoryBytes + cellSize (s.contents cell.1)

/-- The counter is not behind the stored bytes, what is at the key aside. -/
def NotBehind (s : KvStore) (key : String) : Prop :=
  s.valueBytes ≤ s.stats.memoryBytes + cellSize (s.contents key)

end KvStore

/-- The call puts a value through `set`, behind which the loop runs. -/
def Write.Enforces (s : KvStore) : Write → Prop
  | set _ _ | setWithTtl _ _ _ | getset _ _ => True
  | append key _ => s.contents key = none
  | _ => False

namespace KvStore

/-- Each pair has room, or a counter that is not behind, at its turn. -/
def MsetKeepsCap (now : Nat) : List (String × String) → KvStore → Prop
  | [], _ => True
  | (key, value) :: pairs, s => s.config.Valid key (.str value) →
      (s.Room (key, .assignIf s.config s.inTransaction key (.str value) none) ∨ s.NotBehind key) ∧
        MsetKeepsCap now pairs (s.set now key (.str value)).2

/-- There is room for what the call adds, or the loop runs behind it on a counter that is not behind. -/
def KeepsCap (rt : Runtime) (s : KvStore) (c : Nat × Method) : Prop :=
  match c.2 with
  | .write (.mset pairs) => MsetKeepsCap c.1 pairs s
  | .write (.pfadd key values) => s.Room (key, .addValues rt s.config key values)
  | .write (.pfmerge destination sources) => ∀ merged, s.config.ValidKey destination →
      s.mergedSketch destination sources = .ok merged →
        s.Room (destination, .assign (.hyperLogLog merged) none)
  | .write w => ∀ cell ∈ w.cells rt s.config s.inTransaction c.1,
      s.Room cell ∨ w.Enforces s ∧ s.NotBehind cell.1
  | .pfreserve key precision => s.config.ValidKey key → s.contents key = none →
      s.Room (key, .assign (.hyperLogLog (HyperLogLog.new precision)) none)
  | .exec => s.valueBytes + queueGrowth (s.transactionQueue.getD []) s.contents
      ≤ s.config.maxMemoryBytes
  | _ => True

/-- The call leaves the cap and the eviction switch as they are. -/
def FixesCap (s : KvStore) (c : Nat × Method) : Prop :=
  match c.2 with
  | .setConfig config => config.maxMemoryBytes = s.config.maxMemoryBytes ∧
      config.lruEvictionEnabled = s.config.lruEvictionEnabled
  | _ => True

theorem underCap_of_room {s s' : KvStore} {key : String} {op : CellOp} (h : s.Room (key, op))
    (hcontents : s'.contents = Function.update s.contents key (op.onEntry (s.contents key)))
    (hcfg : s'.config = s.config) : s'.UnderCap := by
  have hbytes := valueBytes_update hcontents
  unfold Room at h
  unfold UnderCap
  rw [hcfg]
  simp only at h
  omega

/-- Behind a counter that is not behind, the loop brings the bytes under the cap. -/
theorem enforceMemoryLimit_underCap {s : KvStore} (now : Nat) (hcap : 0 < s.config.maxMemoryBytes)
    (hlisted : s.Listed) (hdrift : s.valueBytes ≤ s.stats.memoryBytes) :
    (s.enforceMemoryLimit now).valueBytes ≤ s.config.maxMemoryBytes := by
  have hafter := (enforceMemoryLimit_records s now).listed hlisted
  have hdrained := enforceMemoryLimit_drained s now
  have hstop := enforceLoop_stops now s.lruOrder s rfl
  rw [← enforceMemoryLimit_capped hcap] at hstop
  have hb := hdrained.bytes
  have hm := hdrained.memory
  rcases hstop with hle | hnil
  · omega
  · have := valueBytes_of_lruOrder_nil hafter hnil
    omega

theorem setWithExpiry_underCap {s : KvStore} (hcapped : s.config.Capped) (hlisted : s.Listed)
    (hunder : s.UnderCap) (now : Nat) (key : String) (value : Value) (expiresAt : Option Nat)
    (h : s.Room (key, .assignIf s.config s.inTransaction key value expiresAt) ∨ s.NotBehind key) :
    (s.setWithExpiry now key value expiresAt).2.UnderCap := by
  by_cases hput : s.config.Valid key value ∧ s.transactionQueue = none
  · obtain ⟨hvalid, htx⟩ := hput
    have hop : CellOp.assignIf s.config s.inTransaction key value expiresAt
        = .assign value expiresAt := if_pos ⟨hvalid, by simp [inTransaction, htx]⟩
    have hmoves := insertEntry_moves s key value expiresAt
    have hbytes := valueBytes_update hmoves.contents
    have hmem := hmoves.memory
    simp only [CellOp.onEntry, cellSize_some, growth_one, CellOp.bytes] at hbytes hmem
    rw [hop] at h
    unfold UnderCap
    rw [setWithExpiry_config, setWithExpiry_put hvalid htx, if_pos ⟨hcapped.cap, hcapped.lru⟩]
    simp only [valueBytes, emitKeyspaceEvent_store]
    rcases h with hroom | hcounter
    · have hfits : (s.insertEntry key ⟨value, expiresAt⟩ (estimateValueSize value)).UnderCap :=
        underCap_of_room hroom hmoves.contents rfl
      exact (enforceMemoryLimit_drained _ now).bytes.trans hfits
    · unfold NotBehind at hcounter
      exact enforceMemoryLimit_underCap now hcapped.cap (hlisted.of_put rfl rfl) (by omega)
  · -- refused or queued
    have hsame : (s.setWithExpiry now key value expiresAt).2.valueBytes = s.valueBytes := by
      obtain ⟨queue, hqueue⟩ := setWithExpiry_unput now expiresAt hput
      rw [hqueue]
      rfl
    unfold UnderCap
    rw [hsame, setWithExpiry_config]
    exact hunder

theorem append_underCap {s : KvStore} (hcapped : s.config.Capped) (hlisted : s.Listed)
    (hunder : s.UnderCap) (now : Nat) (key value : String)
    (h : s.Room (key, .appendStr s.config s.inTransaction key value) ∨
      s.contents key = none ∧ s.NotBehind key) : (s.append now key value).2.UnderCap := by
  cases hkey : s.store[key]? with
  | some entry =>
      have hcell : s.contents key = some entry := hkey
      have hroom : s.Room (key, .appendStr s.config s.inTransaction key value) := by
        rcases h with hroom | ⟨hnone, -⟩
        · exact hroom
        · exact absurd (hnone.symm.trans hcell) (by simp)
      have hmoves : Moves s (s.append now key value).2
          [(key, .appendStr s.config s.inTransaction key value)] := append_present s key now value hkey
      exact underCap_of_room hroom hmoves.contents hmoves.config
  | none =>
      have hcell : s.contents key = none := hkey
      rw [append_absent s key now value hkey]
      apply setWithExpiry_underCap hcapped hlisted hunder
      rcases h with hroom | ⟨-, hcounter⟩
      · left
        have hsame : (CellOp.appendStr s.config s.inTransaction key value).onEntry none
            = (CellOp.assignIf s.config s.inTransaction key (.str value) none).onEntry none := by
          unfold CellOp.appendStr CellOp.assignIf
          split <;> rfl
        unfold Room at hroom ⊢
        simp only [hcell, hsame] at hroom ⊢
        exact hroom
      · exact .inr hcounter

theorem mset_underCap (now : Nat) (pairs : List (String × String)) :
    ∀ {s : KvStore}, s.config.Capped → s.Listed → s.UnderCap → MsetKeepsCap now pairs s →
      (s.mset now pairs).2.UnderCap := by
  induction pairs with
  | nil => exact fun _ _ hunder _ => hunder
  | cons pair pairs ih =>
      intro s hcapped hlisted hunder h
      obtain ⟨key, value⟩ := pair
      rw [mset_cons_snd]
      split
      · next hvalid =>
          obtain ⟨hfirst, hrest⟩ := h hvalid
          have hcfg : (s.set now key (.str value)).2.config = s.config := setWithExpiry_config
          exact ih (hcfg ▸ hcapped) (setWithExpiry_listed hlisted now key _ none)
            (setWithExpiry_underCap hcapped hlisted hunder now key _ none hfirst) hrest
      · exact hunder

theorem write_underCap (rt : Runtime) {s : KvStore} (hcapped : s.config.Capped) (hlisted : s.Listed)
    (hunder : s.UnderCap) (now : Nat) (w : Write) (h : s.KeepsCap rt (now, .write w)) :
    (s.write rt now w).2.UnderCap := by
  have hroomless : ∀ {w : Write} {key : String} {op : CellOp}, Roomless w →
      w.cells rt s.config s.inTransaction now = [(key, op)] → s.Room (key, op) →
        (s.write rt now w).2.UnderCap := by
    intro w key op hw hcells hroom
    have hmoves := write_moves rt s now hw
    rw [hcells] at hmoves
    exact underCap_of_room hroom hmoves.contents hmoves.config
  cases w with
  | set key value =>
      refine setWithExpiry_underCap hcapped hlisted hunder now key value none ?_
      exact (h _ (List.mem_singleton_self _)).imp id And.right
  | setWithTtl key value ttl =>
      refine setWithExpiry_underCap hcapped hlisted hunder now key value _ ?_
      exact (h _ (List.mem_singleton_self _)).imp id And.right
  | getset key value =>
      rw [show (s.write rt now (.getset key value)).2 = _ from getset_snd s key now value]
      refine setWithExpiry_underCap hcapped hlisted hunder now key value none ?_
      exact (h _ (List.mem_singleton_self _)).imp id And.right
  | append key value =>
      exact append_underCap hcapped hlisted hunder now key value (h _ (List.mem_singleton_self _))
  | mset pairs => exact mset_underCap now pairs hcapped hlisted hunder h
  | pfadd key values =>
      have hmoves := pfadd_moves rt s key values
      exact underCap_of_room h hmoves.contents hmoves.config
  | pfmerge destination sources =>
      show (s.pfmerge destination sources).2.UnderCap
      rcases pfmerge_cases s destination sources with ⟨e, he⟩ | ⟨merged, hvalid, -, hmerged, heq⟩
      · rw [he]
        exact hunder
      · have hroom := h merged hvalid hmerged
        rw [heq]
        split
        · exact underCap_of_room hroom (funext fun k => contents_insert s destination _ k) rfl
        · exact underCap_of_room hroom (funext fun k => contents_insert s destination _ k) rfl
  | _ => exact hroomless trivial rfl ((h _ (List.mem_singleton_self _)).resolve_right fun h => h.1)

/-- The step lemma: a call that keeps the cap leaves the stored bytes within it. -/
theorem call_underCap (rt : Runtime) {s : KvStore} (hcapped : s.config.Capped) (hlisted : s.Listed)
    (hunder : s.UnderCap) (c : Nat × Method) (hfixed : s.FixesCap c) (h : s.KeepsCap rt c) :
    (s.call rt c).UnderCap := by
  obtain ⟨now, m⟩ := c
  have hqueue : ∀ m : Method, m.Queues → (s.call rt (now, m)).UnderCap := by
    intro m hm
    obtain ⟨queue, hcall⟩ := call_queues rt s now hm
    rw [hcall]
    exact hunder
  cases m with
  | write w => exact write_underCap rt hcapped hlisted hunder now w h
  | pfreserve key precision =>
      show (s.pfreserve key precision).2.UnderCap
      rcases pfreserve_cases s key precision with ⟨e, he⟩ | ⟨hvalid, hcell, heq⟩
      · rw [he]
        exact hunder
      · have hmoves := insertEntry_moves s key (.hyperLogLog (HyperLogLog.new precision)) none
        rw [heq]
        exact underCap_of_room (h hvalid hcell) hmoves.contents hmoves.config
  | cleanupExpired =>
      have hbytes := removeAll_valueBytes now (s.dueKeys now) s
      show ((s.dueKeys now).foldl (removeExpired now) s).valueBytes
        ≤ ((s.dueKeys now).foldl (removeExpired now) s).config.maxMemoryBytes
      rw [removeAll_config]
      exact hbytes.trans hunder
  | exec =>
      have hbytes := exec_valueBytes s
      have hcfg : s.exec.2.config = s.config := exec_config s
      show s.exec.2.valueBytes ≤ s.exec.2.config.maxMemoryBytes
      have hroom : s.valueBytes + queueGrowth (s.transactionQueue.getD []) s.contents
        ≤ s.config.maxMemoryBytes := h
      rw [hcfg]
      omega
  | multi | discard | queueOperation op => exact hqueue _ trivial
  | setConfig config =>
      show s.valueBytes ≤ config.maxMemoryBytes
      rw [hfixed.1]
      exact hunder
  | drainKeyspaceEvents | resetStats | setKeyspaceNotificationsEnabled enabled => exact hunder

theorem call_capped (rt : Runtime) {s : KvStore} (c : Nat × Method) (hfixed : s.FixesCap c)
    (h : s.config.Capped) : (s.call rt c).config.Capped := by
  obtain ⟨now, m⟩ := c
  rw [call_config]
  cases m with
  | setConfig config =>
      obtain ⟨hcap, hlru⟩ := hfixed
      exact ⟨by rw [Method.configAfter, hcap]; exact h.cap, hlru.trans h.lru⟩
  | setKeyspaceNotificationsEnabled enabled => exact ⟨h.cap, h.lru⟩
  | _ => exact h

/-- Over every run of a store from empty, with eviction on and a fixed cap: where every call keeps the
cap, the stored bytes are within it in every state. -/
theorem cap_holds (rt : Runtime) (config : StoreConfig) (cs : List (Nat × Method))
    (hcapped : config.Capped) (hfixed : Guarded (call rt) FixesCap (withConfig config) cs)
    (hkeeps : Guarded (call rt) (KeepsCap rt) (withConfig config) cs) :
    Always (call rt) UnderCap (withConfig config) cs := by
  have hrun : Always (call rt) (fun s => s.config.Capped ∧ s.Listed ∧ s.UnderCap)
      (withConfig config) cs := by
    refine (hfixed.and hkeeps).always ?_ ⟨hcapped, withConfig_listed config, ?_⟩
    · rintro s c ⟨hcap, hlisted, hunder⟩ ⟨hfix, hkeep⟩
      exact ⟨call_capped rt c hfix hcap, call_listed rt c hlisted,
        call_underCap rt hcap hlisted hunder c hfix hkeep⟩
    · show Lib.Weight.total entrySize ∅ ≤ config.maxMemoryBytes
      rw [Lib.Weight.total_empty]
      exact Nat.zero_le _
  exact hrun.mono fun s h => h.2.2

/-- Five bytes: `a` is set twice and grows in place, and is evicted for `b`. -/
def growingRun : List (Nat × Method) :=
  [(0, .write (.set "a" (.str "aaa"))), (0, .write (.set "a" (.str "a"))),
    (0, .write (.append "a" "a")), (0, .write (.set "b" (.str "bbbb")))]

theorem cap_holds_evicts :
    Always (call .strings) UnderCap (withConfig { maxMemoryBytes := 5 }) growingRun := by
  refine cap_holds .strings _ _ ⟨by decide, rfl⟩ ⟨trivial, trivial, trivial, trivial, trivial⟩
    ⟨fun cell hcell => .inl ?_, fun cell hcell => .inl ?_, fun cell hcell => .inl ?_,
      fun cell hcell => .inr ⟨trivial, ?_⟩, trivial⟩
  -- the counter is not behind, since the value set second was counted on top of the first
  all_goals
    rw [List.mem_singleton.mp hcell]
    first
    | unfold Room
      decide +kernel
    | unfold NotBehind
      decide +kernel

/-- APPEND makes `aa` grow to four bytes in a store of three. -/
theorem append_over_cap :
    StoreConfig.Capped { maxMemoryBytes := 3 } ∧
      Guarded (call .strings) FixesCap (withConfig { maxMemoryBytes := 3 })
        [(0, .write (.append "k" "aa")), (0, .write (.append "k" "aa"))] ∧
      ¬ Always (call .strings) UnderCap (withConfig { maxMemoryBytes := 3 })
        [(0, .write (.append "k" "aa")), (0, .write (.append "k" "aa"))] := by
  refine ⟨⟨by decide, rfl⟩, ⟨trivial, trivial, trivial⟩, fun h => ?_⟩
  have hbytes : (calls .strings (withConfig { maxMemoryBytes := 3 })
      [(0, .write (.append "k" "aa")), (0, .write (.append "k" "aa"))]).valueBytes = 4 := by
    decide +kernel
  have hcap : (calls .strings (withConfig { maxMemoryBytes := 3 })
      [(0, .write (.append "k" "aa")), (0, .write (.append "k" "aa"))]).config.maxMemoryBytes = 3 := by
    decide +kernel
  have hlast := h.last
  unfold UnderCap at hlast
  exact absurd (hbytes.symm.le.trans (hlast.trans hcap.le)) (by decide)

end KvStore

end Daikon
