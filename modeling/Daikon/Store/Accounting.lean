/-
# Daikon.Store.Accounting -- when the byte counter is exact

Creating a key counts its bytes and evicting one gives them back. Nothing else is counted: not what is
overwritten, deleted or cleaned up, not what grows or shrinks in place, and nothing that EXEC does. So
the counter is the sum of the stored sizes in every state of a run exactly if none of these moves a
byte (`memory_exact_iff`).

`Counted` gives the condition call by call, by the entry that the call finds and by what it makes of it, so
that a run can be checked from the states before its calls. Both directions go through the drift of
`Daikon.Store.Memory`: a call that counts all that it adds and takes away keeps a drift of zero, and one
that does not leaves another drift, at once.

`memory_not_exact` is the shortest run that breaks it: a value is overwritten and counted a second time. The
counter decides about eviction, so what goes wrong here comes back in `Daikon.Store.Budget` and
`Daikon.Store.Limits`.
-/
import Daikon.Lib.Run
import Daikon.Store.Memory
import Daikon.Store.Text

namespace Daikon

open Lib.Run (Always Guarded)

namespace KvStore

/-- The counter is the sum of the sizes of the stored values. -/
def Accounted (s : KvStore) : Prop := s.stats.memoryBytes = s.valueBytes

theorem accounted_iff_drift (s : KvStore) : s.Accounted ↔ s.drift = 0 := by
  unfold Accounted drift
  omega

/-- The call counts every byte that it adds to the stored values or takes away from them. -/
def Counted (rt : Runtime) (s : KvStore) (c : Nat × Method) : Prop :=
  match c.2 with
  | .write (.mset pairs) => MsetExact c.1 pairs s
  | .write w => ∀ cell ∈ w.cells rt s.config s.inTransaction c.1, cell.2.Exact (s.contents cell.1)
  | .cleanupExpired =>
      ∀ key entry, s.contents key = some entry → entry.due c.1 → entrySize entry = 0
  | .exec => queueGrowth (s.transactionQueue.getD []) s.contents = 0
  | .resetStats => s.valueBytes = 0
  | _ => True

theorem drift_one_iff {s s' : KvStore} {key : String} {op : CellOp} (h : s.drift = 0)
    (hdrift : s'.drift = s.drift + op.overcount (s.contents key)) :
    s'.drift = 0 ↔ ∀ cell ∈ [(key, op)], cell.2.Exact (s.contents cell.1) := by
  rw [List.forall_mem_singleton]
  show s'.drift = 0 ↔ op.Exact (s.contents key)
  rw [← CellOp.overcount_eq_zero_iff]
  omega

theorem roomless_accounted_iff (rt : Runtime) {s : KvStore} (now : Nat) {w : Write}
    (hw : Roomless w) (h : s.drift = 0) : (s.write rt now w).2.drift = 0 ↔
      ∀ cell ∈ w.cells rt s.config s.inTransaction now, cell.2.Exact (s.contents cell.1) := by
  have hmoves := write_moves rt s now hw
  cases w with
  | set _ _ | setWithTtl _ _ _ | append _ _ | getset _ _ | mset _ | pfadd _ _ | pfmerge _ _ =>
      exact hw.elim
  | _ => exact drift_one_iff h hmoves.drift

theorem write_accounted_iff (rt : Runtime) {s : KvStore} (now : Nat) (w : Write) (h : s.drift = 0) :
    (s.write rt now w).2.drift = 0 ↔ s.Counted rt (now, .write w) := by
  have hs : 0 ≤ s.drift := by omega
  cases w with
  | set key value => exact drift_one_iff h (setWithExpiry_drift hs now key value none)
  | setWithTtl key value ttl => exact drift_one_iff h (setWithExpiry_drift hs now key value _)
  | append key value => exact drift_one_iff h (append_drift hs now key value)
  | getset key value =>
      rw [show (s.write rt now (.getset key value)).2 = _ from getset_snd s key now value]
      exact drift_one_iff h (setWithExpiry_drift hs now key value none)
  | mset pairs =>
      have hiff := (mset_drift now pairs hs).2
      rw [h] at hiff
      exact hiff
  | pfadd key values =>
      -- a sketch keeps its size
      have hdrift := (pfadd_moves rt s key values).drift
      have hexact : (CellOp.addValues rt s.config key values).overcount (s.contents key) = 0 := by
        rw [CellOp.overcount_eq_zero_iff]
        exact CellOp.addValues_exact rt s.config key values _
      refine iff_of_true ?_ fun cell hcell => by cases hcell
      show (s.pfadd rt key values).2.drift = 0
      omega
  | pfmerge destination sources =>
      refine iff_of_true ?_ fun cell hcell => by cases hcell
      exact (pfmerge_drift s destination sources).trans h
  | _ => exact roomless_accounted_iff rt now trivial h

/-- The step lemma: from an exact counter, a call leaves an exact one if and only if it counts all that
it adds and takes away. -/
theorem call_accounted_iff (rt : Runtime) {s : KvStore} (c : Nat × Method) (h : s.Accounted) :
    (s.call rt c).Accounted ↔ s.Counted rt c := by
  obtain ⟨now, m⟩ := c
  rw [accounted_iff_drift] at h ⊢
  have hqueue : ∀ m : Method, m.Queues → ((s.call rt (now, m)).drift = 0 ↔ True) := by
    intro m hm
    obtain ⟨queue, hcall⟩ := call_queues rt s now hm
    rw [hcall]
    exact iff_of_true h trivial
  cases m with
  | write w => exact write_accounted_iff rt now w h
  | pfreserve key precision => exact iff_of_true ((pfreserve_drift s key precision).trans h) trivial
  | cleanupExpired =>
      have hiff := cleanupExpired_drift s now
      rw [h] at hiff
      exact hiff
  | exec =>
      have hbytes := exec_valueBytes s
      have hmem := exec_memoryBytes s
      show s.exec.2.drift = 0 ↔ queueGrowth (s.transactionQueue.getD []) s.contents = 0
      unfold drift at h ⊢
      omega
  | multi | discard | queueOperation op => exact hqueue _ trivial
  | resetStats =>
      show s.resetStats.drift = 0 ↔ s.valueBytes = 0
      have hbytes : s.resetStats.valueBytes = s.valueBytes := rfl
      have hmem : s.resetStats.stats.memoryBytes = 0 := rfl
      unfold drift
      omega
  | drainKeyspaceEvents | setConfig config | setKeyspaceNotificationsEnabled enabled =>
      exact iff_of_true h trivial

/-- Over every run of a store from empty, the counter is exact in every state if and only if every call
counts all that it adds and takes away. -/
theorem memory_exact_iff (rt : Runtime) (config : StoreConfig) (cs : List (Nat × Method)) :
    Always (call rt) Accounted (withConfig config) cs ↔
      Guarded (call rt) (Counted rt) (withConfig config) cs := by
  apply Lib.Run.always_iff_guarded_of_step (I := Accounted)
  · exact fun s c h hc => (call_accounted_iff rt c h).mpr hc
  · exact fun s h => h
  · exact fun s c h hc hafter => hc ((call_accounted_iff rt c h).mp hafter)
  · rfl

/-- Overwriting a value counts the new one on top of the old. -/
theorem memory_not_exact : ¬ Always (call .strings) Accounted new
    [(0, .write (.set "k" (.str "aa"))), (0, .write (.set "k" (.str "b")))] := by
  intro h
  have hcounter : (calls .strings new [(0, .write (.set "k" (.str "aa"))),
      (0, .write (.set "k" (.str "b")))]).stats.memoryBytes = 3 := by decide +kernel
  have hbytes : (calls .strings new [(0, .write (.set "k" (.str "aa"))),
      (0, .write (.set "k" (.str "b")))]).valueBytes = 1 := by decide +kernel
  have hlast := h.last
  unfold Accounted at hlast
  exact absurd (hcounter.symm.trans (hlast.trans hbytes)) (by decide)

end KvStore

end Daikon
