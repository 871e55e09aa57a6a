/-
# Daikon.Store.Evict -- what a call does to a store that may be full

Eviction takes entries out and does nothing else. So a keyed call leaves, at every key, what its cell
operations make of the entry there, or no entry (`write_within`). Where there is room for what the
call adds, `write_refines` says more.

`Within` is the order that comes with eviction: a map whose entries are some of another's. A call on a store
that has lost entries does at each key what it does on the whole store, or leaves nothing there, because its
cells are `Stable`: on a missing entry they do what they do on a present one, or nothing. This is what fails
for a counter of the queue, which starts from zero at a missing key, and so EXEC is not among the calls
here.
-/
import Daikon.Store.Refine

namespace Daikon

open Lib.KeyedLog (run)

/-- The entries of the map, some of them evicted. -/
def Within (m' m : String → Option ValueWithTTL) : Prop := ∀ k, m' k = m k ∨ m' k = none

theorem Within.refl (m : String → Option ValueWithTTL) : Within m m := fun _ => .inl rfl

theorem Within.of_eq {m' m : String → Option ValueWithTTL} (h : m' = m) : Within m' m :=
  fun k => .inl (congrFun h k)

theorem Within.trans {m'' m' m : String → Option ValueWithTTL} (h : Within m'' m')
    (h' : Within m' m) : Within m'' m := by
  intro k
  rcases h k with heq | hnone
  · rw [heq]
    exact h' k
  · exact .inr hnone

/-- On a missing entry, the operation does what it does on a present one, or nothing. -/
def CellOp.Stable (op : CellOp) : Prop := ∀ e, op.onEntry none = op.onEntry e ∨ op.onEntry none = none

theorem CellOp.assignIf_stable (cfg : StoreConfig) (inTx : Bool) (key : String) (value : Value)
    (expiresAt : Option Nat) : (CellOp.assignIf cfg inTx key value expiresAt).Stable := by
  intro e
  unfold assignIf
  split
  · exact .inl rfl
  · exact .inr rfl

theorem CellOp.assignAll_stable (cfg : StoreConfig) (inTx : Bool) (pairs : List (String × String)) :
    ∀ c ∈ CellOp.assignAll cfg inTx pairs, c.2.Stable := by
  intro c hc
  obtain ⟨value, -, hop⟩ := mem_assignAll hc
  rw [hop]
  exact assignIf_stable cfg inTx c.1 (.str value) none

/-- Stable operations find an evicted entry missing and are none the worse. -/
theorem Within.run {cells : List (String × CellOp)} :
    ∀ {m' m : String → Option ValueWithTTL}, Within m' m → (∀ c ∈ cells, c.2.Stable) →
      Within (Lib.KeyedLog.run (entryUpdates cells) m') (Lib.KeyedLog.run (entryUpdates cells) m) := by
  induction cells with
  | nil => intro m' m h _; exact h
  | cons c cells ih =>
      intro m' m h hstable
      refine ih (fun k => ?_) fun d hd => hstable d (List.mem_cons_of_mem _ hd)
      by_cases hk : k = c.1
      · subst hk
        simp only [Lib.KeyedLog.apply, Function.update_self]
        rcases h c.1 with heq | hnone
        · exact .inl (congrArg _ heq)
        · rw [hnone]
          exact hstable c (by simp) (m c.1)
      · simp only [Lib.KeyedLog.apply, Function.update_of_ne hk]
        exact h k

namespace KvStore

/-! ## Eviction -/

theorem evictHead_within (s : KvStore) (now : Nat) (lruKey : String) (rest : List String) :
    Within (s.evictHead now lruKey rest).contents s.contents := by
  intro k
  unfold evictHead contents
  split
  · simp only [emitKeyspaceEvent_store, contents_erase]
    by_cases hk : k = lruKey
    · exact .inr (by rw [hk, Function.update_self])
    · exact .inl (by rw [Function.update_of_ne hk]; rfl)
  · exact .inl rfl

theorem enforceLoop_within (now : Nat) (keys : List String) :
    ∀ s : KvStore, Within (enforceLoop now keys s).contents s.contents := by
  induction keys with
  | nil => intro s; exact Within.refl _
  | cons lruKey rest ih =>
      intro s
      unfold enforceLoop
      split
      · exact (ih _).trans (evictHead_within s now lruKey rest)
      · exact Within.refl _

theorem enforceMemoryLimit_within (s : KvStore) (now : Nat) :
    Within (s.enforceMemoryLimit now).contents s.contents := by
  unfold enforceMemoryLimit
  split
  · exact Within.refl _
  · exact enforceLoop_within now _ s

/-! ## Calls -/

theorem setWithExpiry_within (s : KvStore) (now : Nat) (key : String) (value : Value)
    (expiresAt : Option Nat) :
    Within (s.setWithExpiry now key value expiresAt).2.contents
      (run (entryUpdates [(key, .assignIf s.config s.inTransaction key value expiresAt)])
        s.contents) := by
  by_cases hput : s.config.Valid key value ∧ s.transactionQueue = none
  · obtain ⟨hvalid, htx⟩ := hput
    have hop : CellOp.assignIf s.config s.inTransaction key value expiresAt
        = .assign value expiresAt := if_pos ⟨hvalid, by simp [inTransaction, htx]⟩
    have hinsert : (s.insertEntry key ⟨value, expiresAt⟩ (estimateValueSize value)).contents
        = run (entryUpdates [(key, .assign value expiresAt)]) s.contents :=
      funext fun k => contents_insert s key _ k
    rw [hop, setWithExpiry_put hvalid htx, ← hinsert]
    intro k
    simp only [contents, emitKeyspaceEvent_store]
    split
    · exact enforceMemoryLimit_within _ now k
    · exact .inl rfl
  · -- refused or queued
    have hop : CellOp.assignIf s.config s.inTransaction key value expiresAt = .nop :=
      if_neg fun h => hput ⟨h.1, by simpa [inTransaction] using h.2⟩
    have hstore : (s.setWithExpiry now key value expiresAt).2.contents = s.contents := by
      obtain ⟨queue, hqueue⟩ := setWithExpiry_unput now expiresAt hput
      rw [hqueue]
      rfl
    rw [hop, hstore]
    exact Within.of_eq (Moves.nop s key).contents

/-- A missing key is appended to by setting it. -/
theorem append_within (s : KvStore) (now : Nat) (key value : String) :
    Within (s.append now key value).2.contents
      (run (entryUpdates [(key, .appendStr s.config s.inTransaction key value)]) s.contents) := by
  cases hkey : s.store[key]? with
  | some entry => exact Within.of_eq (append_present s key now value hkey).contents
  | none =>
      have hcell : s.contents key = none := hkey
      have hsame : run (entryUpdates [(key, .appendStr s.config s.inTransaction key value)]) s.contents
          = run (entryUpdates [(key, .assignIf s.config s.inTransaction key (.str value) none)])
              s.contents := by
        show Function.update s.contents key _ = Function.update s.contents key _
        rw [hcell]
        unfold CellOp.appendStr CellOp.assignIf
        split <;> rfl
      rw [append_absent s key now value hkey, hsame]
      exact setWithExpiry_within s now key (.str value) none

/-- A pair that evicts leaves the later pairs less to find, and they put what they put. -/
theorem mset_within (now : Nat) (pairs : List (String × String)) :
    ∀ s : KvStore, Within (s.mset now pairs).2.contents
      (run (entryUpdates (CellOp.assignAll s.config s.inTransaction pairs)) s.contents) := by
  induction pairs with
  | nil => intro s; exact Within.refl _
  | cons pair pairs ih =>
      intro s
      obtain ⟨key, value⟩ := pair
      rw [mset_cons_snd, CellOp.assignAll]
      by_cases hvalid : s.config.Valid key (.str value)
      · rw [if_pos hvalid, if_pos hvalid]
        have hfirst := setWithExpiry_within s now key (.str value) none
        have hrest := ih (s.set now key (.str value)).2
        rw [show (s.set now key (.str value)).2.config = s.config from setWithExpiry_config,
          show (s.set now key (.str value)).2.inTransaction = s.inTransaction from
            setWithExpiry_inTransaction] at hrest
        exact hrest.trans (hfirst.run (CellOp.assignAll_stable s.config s.inTransaction pairs))
      · rw [if_neg hvalid, if_neg hvalid]
        exact Within.refl _

/-- A keyed call leaves what its cell operations make of the entries, some of them evicted. -/
theorem write_within (rt : Runtime) (s : KvStore) (now : Nat) {w : Write} (hw : w.Keyed) :
    Within (s.write rt now w).2.contents
      (run (entryUpdates (w.cells rt s.config s.inTransaction now)) s.contents) := by
  cases w with
  | set key value => exact setWithExpiry_within s now key value none
  | setWithTtl key value ttl => exact setWithExpiry_within s now key value _
  | append key value => exact append_within s now key value
  | getset key value =>
      rw [show (s.write rt now (.getset key value)).2 = _ from getset_snd s key now value]
      exact setWithExpiry_within s now key value none
  | mset pairs => exact mset_within now pairs s
  | pfadd key values => exact hw.elim
  | pfmerge destination sources => exact hw.elim
  | _ => exact Within.of_eq (Moves.contents (write_moves rt s now trivial))

end KvStore

end Daikon
