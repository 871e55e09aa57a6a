/-
# Daikon.Recovery.Interpreters -- the three interpreters of the log, side by side

Startup replay, recovery and replicas carry the same entries out with three copies of one match.
They part in two places: replay decodes the texts that SET, GETSET and MSET log, and a replica stops
at an error that replay and recovery drop. Entries that avoid both are carried out alike.

Each of the three is a fold of its own over the list, so each is first brought to the same shape, the writes
of a list of calls. For the recovery that is the raw reading of every entry; for the replay it is the
decoded reading, with the entries left out that do not decode; for a replica it is the raw reading up to the
first refusal.

`CarriedOutAlike` is asked of an entry and of the store before it, since whether a call is refused depends
on what stands at its key. `set_read_two_ways` shows what happens outside: a SET is a text with quotation
marks to recovery and to replicas, and without them to the replay.
-/
import Daikon.Replica.State
import Daikon.Recovery.Crash

namespace Daikon

open Lib.Run (Guarded)

/-- Recovery over a list of entries: an error is logged and skipped. -/
def Pitr.applyAll (rt : Runtime) (entries : List (Nat × WalEntry)) (store : KvStore) : KvStore :=
  entries.foldl (fun store e => (Pitr.applyWalEntry rt e.1 store e.2).2) store

/-- Recovery to a target does so with the entries in front of the first one past it. -/
theorem Pitr.replayTo_eq (rt : Runtime) (target : Nat) (entries : List (Nat × WalEntry)) :
    ∀ store : KvStore, Pitr.replayTo rt target entries store
      = Pitr.applyAll rt (entries.takeWhile fun e => e.2.timestamp ≤ target) store := by
  induction entries with
  | nil => intro store; rfl
  | cons e entries ih =>
      intro store
      obtain ⟨now, entry⟩ := e
      rw [Pitr.replayTo, List.takeWhile_cons]
      by_cases h : entry.timestamp ≤ target
      · rw [if_neg (by omega), if_pos (by simpa using h), ih]
        rfl
      · rw [if_pos (by omega), if_neg (by simpa using h)]
        rfl

/-- A replica over a list of entries, with a local log that accepts them: the first error ends it. -/
def ReplicationReplica.applyAll (rt : Runtime) :
    List (Nat × WalEntry) → ReplicationReplica → Except KvStoreError Unit × ReplicationReplica
  | [], r => (.ok (), r)
  | (now, entry) :: entries, r =>
      match r.applyWalEntry rt now none entry with
      | (.error e, r) => (.error e, r)
      | (.ok (), r) => applyAll rt entries r

/-- The operation is carried out alike: its texts decode to themselves, and the store accepts it. -/
def WalOperation.CarriedOutAlike (rt : Runtime) (s : KvStore) (op : WalOperation) : Prop :=
  op.SelfDecoding rt ∧ ¬ op.Refused s

theorem WalOperation.CarriedOutAlike.replayable {rt : Runtime} {s : KvStore} {op : WalOperation}
    (h : op.CarriedOutAlike rt s) : op.Replayable rt s.config := by
  obtain ⟨hself, haccepted⟩ := h
  cases op with
  | set key value ttl =>
      intro parsed hparsed
      have htext : rt.valueFromJson value = some (.str value) := hself
      rw [htext] at hparsed
      cases hparsed
      exact not_not.mp haccepted
  | _ => trivial

/-- The calls that recovery and replicas make. -/
def rawStep (rt : Runtime) (s : KvStore) (e : Nat × WalEntry) : KvStore :=
  (s.write rt e.1 e.2.operation.raw).2

theorem applyAll_pitr (rt : Runtime) (entries : List (Nat × WalEntry)) (s : KvStore) :
    Pitr.applyAll rt entries s = entries.foldl (rawStep rt) s := by
  have hstep : (fun store (e : Nat × WalEntry) => (Pitr.applyWalEntry rt e.1 store e.2).2)
      = rawStep rt := by
    funext store e
    exact applyOperation_snd rt e.1 store e.2.operation
  rw [Pitr.applyAll, hstep]

/-- The calls of a list of entries, with their clocks. -/
def rawCalls (entries : List (Nat × WalEntry)) : List (Nat × Write) :=
  entries.map fun e => (e.1, e.2.operation.raw)

theorem Pitr.applyAll_writes (rt : Runtime) (entries : List (Nat × WalEntry)) (s : KvStore) :
    Pitr.applyAll rt entries s = s.writes rt (rawCalls entries) := by
  rw [applyAll_pitr, KvStore.writes, rawCalls, List.foldl_map]
  rfl

theorem replayWal_alike {rt : Runtime} {entries : List (Nat × WalEntry)} :
    ∀ {s : KvStore}, Guarded (rawStep rt) (fun s e => e.2.operation.CarriedOutAlike rt s) s entries →
      replayWal rt entries s = .ok (entries.foldl (rawStep rt) s) := by
  induction entries with
  | nil => intro s _; rfl
  | cons e entries ih =>
      rintro s ⟨halike, hrest⟩
      obtain ⟨now, entry⟩ := e
      rw [replayWal_cons_of_replayable halike.replayable,
        WalOperation.replayed_of_selfDecoding halike.1]
      exact ih hrest

theorem applyAll_replica {rt : Runtime} {entries : List (Nat × WalEntry)} :
    ∀ {r : ReplicationReplica},
      Guarded (rawStep rt) (fun s e => e.2.operation.CarriedOutAlike rt s) r.store entries →
        (ReplicationReplica.applyAll rt entries r).1 = .ok () ∧
          (ReplicationReplica.applyAll rt entries r).2.store
            = entries.foldl (rawStep rt) r.store := by
  induction entries with
  | nil => intro r _; exact ⟨rfl, rfl⟩
  | cons e entries ih =>
      rintro r ⟨halike, hrest⟩
      obtain ⟨now, entry⟩ := e
      have hok := (applyOperation_ok_iff rt now r.store entry.operation).mpr halike.2
      have hstore : _ = rawStep rt r.store (now, entry) :=
        applyOperation_snd rt now r.store entry.operation
      rw [ReplicationReplica.applyAll, List.foldl_cons]
      unfold ReplicationReplica.applyWalEntry
      rcases hr : applyOperation rt now r.store entry.operation with ⟨e | _, store⟩
      · rw [hr] at hok
        cases hok
      · rw [hr] at hstore
        subst hstore
        exact ih hrest

/-- The interpreters agree: entries that are carried out alike, each by the store that the entries
before it leave, go through in all three and give one map. -/
theorem interpreters_agree (rt : Runtime) (entries : List (Nat × WalEntry))
    (r : ReplicationReplica)
    (h : Guarded (rawStep rt) (fun s e => e.2.operation.CarriedOutAlike rt s) r.store entries) :
    ∃ s, replayWal rt entries r.store = .ok s ∧
      (Pitr.applyAll rt entries r.store).contents = s.contents ∧
      (ReplicationReplica.applyAll rt entries r).1 = .ok () ∧
      (ReplicationReplica.applyAll rt entries r).2.store.contents = s.contents := by
  obtain ⟨hok, hstore⟩ := applyAll_replica h
  exact ⟨_, replayWal_alike h, congrArg _ (applyAll_pitr rt entries r.store), hok,
    congrArg _ hstore⟩

theorem interpreters_agree_lpush :
    ∃ s, replayWal .strings [(0, WalEntry.new 0 (.lPush "k" ["v"]))] (.withConfig {}) = .ok s ∧
      (Pitr.applyAll .strings [(0, WalEntry.new 0 (.lPush "k" ["v"]))] (.withConfig {})).contents
        = s.contents ∧
      (ReplicationReplica.applyAll .strings [(0, WalEntry.new 0 (.lPush "k" ["v"]))]
        (.new (.withConfig {}) [])).1 = .ok () ∧
      (ReplicationReplica.applyAll .strings [(0, WalEntry.new 0 (.lPush "k" ["v"]))]
        (.new (.withConfig {}) [])).2.store.contents = s.contents :=
  interpreters_agree .strings [(0, WalEntry.new 0 (.lPush "k" ["v"]))] (.new (.withConfig {}) [])
    ⟨⟨trivial, fun h => h⟩, trivial⟩

/-- The entry that `set_value` logs for `k` and `v`: replay puts the value `v`, recovery puts the
JSON text that stands for it. -/
theorem set_read_two_ways :
    ((Server.fresh {} none false).serve .strings (Io.healthy 0, .setValue "k" "v" none)).wal
        = [WalEntry.new 0 (.set "k" (strToJson "v") none)] ∧
      ¬ ∃ s, replayWal .strings [(0, WalEntry.new 0 (.set "k" (strToJson "v") none))]
          (.withConfig {}) = .ok s ∧
        (Pitr.applyAll .strings [(0, WalEntry.new 0 (.set "k" (strToJson "v") none))]
          (.withConfig {})).contents = s.contents := by
  refine ⟨Server.setValue_wal (Runtime.strings_valueToJson "v") rfl rfl, ?_⟩
  rintro ⟨s, hreplay, hcontents⟩
  have hdecode : Runtime.strings.valueFromJson (strToJson "v") = some (.str "v") := by
    rw [Runtime.strings_valueFromJson]
    exact strFromJson_strToJson "v"
  simp only [replayWal, replayOperation, WalEntry.new, hdecode] at hreplay
  cases hreplay
  have hk := congrFun hcontents "k"
  revert hk
  decide

end Daikon
