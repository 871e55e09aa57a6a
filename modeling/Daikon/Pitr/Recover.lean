/-
# Daikon.Pitr.Recover -- which log entries a recovery carries out

Recovery goes through the log from its first entry on, whatever the snapshot holds already, and
compares seconds with a target in nanoseconds. `applies_once_iff` and `latest_snapshot_undoes_iff`
say for which histories neither does harm.

A history is a list of requests and of snapshots. A recovery then sees the directory in some order, reads
one file and carries entries out on it, each with a clock of its own; what is asked of the surroundings is
said by `Sees` and `Base`, the listing and the file that was chosen.

`file.logged` is the length of the log when the snapshot was made. It is not in the file: the model carries
it beside the file so that `reapplied`, the entries that the snapshot holds already and recovery carries out
again, can be said at all. The first theorem says that there are none exactly if nothing was logged before
the snapshot or the target lies before the first entry, and the second what a recovery to the newest
snapshot gives back. `push_doubled` and `later_push_recovered` are what happens elsewhere.
-/
import Daikon.Pitr.Snapshot
import Daikon.Recovery.Restart
import Mathlib.Data.List.TakeWhile

namespace Daikon

/-! ## Histories -/

/-- A server and the directory of its snapshots. -/
structure PitrServer where
  server : Server
  dir : List SnapshotFile := []

namespace PitrServer

/-- A step of a history: a request, or the making of a snapshot. -/
inductive Action where
  | request (io : Io) (req : Request)
  | createSnapshot (io : SnapshotIo)

/-- What the step does to the server and to the snapshot directory. -/
def step (rt : Runtime) (c : SnapshotCodec) (s : PitrServer) : Action → PitrServer
  | .request io req => { s with server := s.server.serve rt (io, req) }
  | .createSnapshot io =>
      { s with dir := (Pitr.createSnapshot c io s.dir s.server.wal s.server.store).2 }

/-- The state that a history leads to. -/
def after (rt : Runtime) (c : SnapshotCodec) (cfg : StoreConfig)
    (runtime : Option ApiRuntimeConfig) (notify : Bool) (history : List Action) : PitrServer :=
  history.foldl (step rt c) { server := .fresh cfg runtime notify }

/-- The recovery sees the directory, in some order, and the log. -/
structure Sees (s : PitrServer) (io : Pitr.RecoverIo) (listing : List SnapshotFile) : Prop where
  files : io.listing = .ok listing
  order : listing.Perm s.dir
  log : io.readAll = .ok s.server.wal

/-- A recovery that reads the directory as it is kept here. -/
def recoverIo (s : PitrServer) (now : Nat) : Pitr.RecoverIo :=
  { listing := .ok s.dir, readAll := .ok s.server.wal, clock := fun _ => now }

theorem sees_recoverIo (s : PitrServer) (now : Nat) : s.Sees (s.recoverIo now) s.dir :=
  ⟨rfl, List.Perm.refl _, rfl⟩

end PitrServer

namespace Pitr

/-- The entries that a recovery to the target carries out, with the clocks. -/
def carriedOut (io : RecoverIo) (target : Nat) (wal : List WalEntry) : List (Nat × WalEntry) :=
  (stamped io.clock wal).takeWhile fun e => e.2.timestamp ≤ target

/-- A recovery carries them out, one after another, on the store it starts from. -/
theorem recoverToTimestamp_eq {c : SnapshotCodec} (rt : Runtime) {io : RecoverIo} {target : Nat}
    {listing : List SnapshotFile} {wal : List WalEntry} {base : KvStore}
    (hlisting : io.listing = .ok listing) (hwal : io.readAll = .ok wal)
    (hbase : baseStore c io listing target = .ok base) :
    recoverToTimestamp c rt io target = .ok (applyAll rt (carriedOut io target wal) base) := by
  unfold recoverToTimestamp
  rw [hlisting]
  simp only [hbase, hwal]
  rw [replayTo_eq, carriedOut]

/-- The snapshot that a recovery starts from, with its file and its store. -/
structure Base (c : SnapshotCodec) (io : RecoverIo) (listing : List SnapshotFile) (target : Nat)
    (file : SnapshotFile) (base : KvStore) : Prop where
  chosen : ∃ snapshot, baseSnapshot listing target = some snapshot ∧
    readSnapshot io listing snapshot.snapshotFile = .ok file
  decoded : c.decode file = .ok base

theorem Base.baseStore {c : SnapshotCodec} {io : RecoverIo} {listing : List SnapshotFile}
    {target : Nat} {file : SnapshotFile} {base : KvStore} (h : Base c io listing target file base) :
    Pitr.baseStore c io listing target = .ok base := by
  obtain ⟨snapshot, hsnapshot, hfile⟩ := h.chosen
  unfold Pitr.baseStore
  rw [hsnapshot]
  simp only [hfile]
  exact h.decoded

/-- It starts from a store as it is read from a file. -/
theorem baseStore_saved {c : SnapshotCodec} {disk : RecoverIo} {listing : List SnapshotFile}
    {target : Nat} {base : KvStore} (h : baseStore c disk listing target = .ok base) :
    ∃ saved : SavedStore, base = saved.toStore := by
  unfold baseStore at h
  split at h
  · next snapshot hsnapshot =>
      cases hread : readSnapshot disk listing snapshot.snapshotFile with
      | error e => rw [hread] at h; cases h
      | ok file =>
          rw [hread] at h
          simp only [Except.bind, SnapshotCodec.decode] at h
          split at h
          · cases h
          · split at h
            · cases h
            · split at h
              · cases h
              · next saved _ =>
                  cases h
                  exact ⟨saved, rfl⟩
  · cases h
    exact ⟨{}, rfl⟩

/-! ## Entries that the snapshot holds already -/

/-- The entries carried out that were in the log when the snapshot was made. -/
def reapplied (io : RecoverIo) (target : Nat) (wal : List WalEntry) (file : SnapshotFile) :
    List (Nat × WalEntry) :=
  (carriedOut io target wal).take file.logged

/-- No entry is carried out a second time; so where nothing was logged between the snapshot and the
target, recovery gives the contents of the snapshot. -/
structure AppliesOnce (c : SnapshotCodec) (rt : Runtime) (io : RecoverIo) (target : Nat)
    (wal : List WalEntry) (file : SnapshotFile) (base : KvStore) : Prop where
  once : reapplied io target wal file = []
  unchanged : (∀ entry ∈ wal.drop file.logged, target < entry.timestamp) →
    ∃ store, recoverToTimestamp c rt io target = .ok store ∧ store.contents = base.contents

theorem carriedOut_eq_nil_iff {io : RecoverIo} {target : Nat} {wal : List WalEntry} :
    carriedOut io target wal = [] ↔ ∀ entry ∈ wal.head?, target < entry.timestamp := by
  cases wal with
  | nil => simp [carriedOut, stamped]
  | cons entry wal =>
      have hfirst : stamped io.clock (entry :: wal)
          = (io.clock 0, entry) :: stamped (fun i => io.clock (i + 1)) wal := by
        simp [stamped, List.mapIdx_cons]
      rw [carriedOut, hfirst, List.takeWhile_cons]
      by_cases h : entry.timestamp ≤ target
      · simp [h, Nat.not_lt.mpr h]
      · simp [h, Nat.not_le.mp h]

/-- In every history, a recovery from a snapshot carries out no entry a second time exactly if
nothing was logged when the snapshot was made (or the log begins past the target). -/
theorem applies_once_iff (rt : Runtime) (c : SnapshotCodec) (cfg : StoreConfig)
    (runtime : Option ApiRuntimeConfig) (notify : Bool) (history : List PitrServer.Action)
    (target : Nat) {io : RecoverIo} {listing : List SnapshotFile} {file : SnapshotFile}
    {base : KvStore}
    (hsees : (PitrServer.after rt c cfg runtime notify history).Sees io listing)
    (hbase : Base c io listing target file base) :
    AppliesOnce c rt io target (PitrServer.after rt c cfg runtime notify history).server.wal file base ↔
      file.logged = 0 ∨ ∀ entry ∈ (PitrServer.after rt c cfg runtime notify history).server.wal.head?,
        target < entry.timestamp := by
  generalize PitrServer.after rt c cfg runtime notify history = s at hsees ⊢
  have hrecover := recoverToTimestamp_eq rt hsees.files hsees.log hbase.baseStore
  constructor
  · intro h
    have honce := h.once
    rw [reapplied, List.take_eq_nil_iff, carriedOut_eq_nil_iff] at honce
    exact honce
  · intro h
    refine ⟨?_, fun hafter => ⟨_, hrecover, ?_⟩⟩
    · rw [reapplied, List.take_eq_nil_iff, carriedOut_eq_nil_iff]
      exact h
    · have hnothing : carriedOut io target s.server.wal = [] := by
        refine carriedOut_eq_nil_iff.mpr ?_
        rcases h with hzero | hpast
        · rw [hzero, List.drop_zero] at hafter
          exact fun entry hentry => hafter entry (List.mem_of_mem_head? hentry)
        · exact hpast
      rw [hnothing]
      rfl

/-- The text of a snapshot of a store of lists, each given as its own text, without any counters but
the three that a push changes. -/
def snapshotText (store : String) (totalKeys totalWrites memoryBytes : Nat) : String :=
  "\x7b\n  \"store\": " ++ store ++ ",\n  \"stats\": \x7b\n    \"total_keys\": "
    ++ toString totalKeys ++ ",\n    \"expired_keys\": 0,\n    \"total_reads\": 0,\n    \"total_writes\": "
    ++ toString totalWrites
    ++ ",\n    \"total_deletes\": 0,\n    \"hits\": 0,\n    \"misses\": 0,\n    \"memory_bytes\": "
    ++ toString memoryBytes ++ ",\n    \"evictions\": 0\n  \x7d\n\x7d"

/-- The store in which `a` was pushed to `k`. -/
def pushedStore : SavedStore where
  store := (∅ : Entries).insert "k" ⟨.list ["a"], none⟩
  stats := { totalKeys := 1, totalWrites := 1, memoryBytes := 25 }

/-- Its text in a snapshot. -/
def pushedText : String :=
  snapshotText
    "\x7b\n    \"k\": \x7b\n      \"value\": \x7b\n        \"List\": [\n          \"a\"\n        ]\n      \x7d,\n      \"expires_at\": null\n    \x7d\n  \x7d"
    1 1 25

/-- A codec for the empty store and for that one. -/
def snapshotCodec : SnapshotCodec :=
  .plain [({}, snapshotText "\x7b\x7d" 0 0 0), (pushedStore, pushedText)]

/-- `a` is pushed to `k` in the fifth second. -/
def pushA : PitrServer.Action := .request (Io.healthy 5) (.listLpush "k" ["a"])

/-- A snapshot of the empty store, then a push. -/
def snapshotFirst : PitrServer :=
  .after .strings snapshotCodec {} none false [.createSnapshot { nanos := 4000000000 }, pushA]

/-- The push, then a snapshot. -/
def snapshotAfter : PitrServer :=
  .after .strings snapshotCodec {} none false [pushA, .createSnapshot { nanos := 6000000000 }]

/-- Recovery starts from the only snapshot there is. -/
theorem base_of_single {c : SnapshotCodec} {io : RecoverIo} {file : SnapshotFile} {base : KvStore}
    {timestamp target : Nat} (hread : io.readFile = none) (hdecoded : c.decode file = .ok base)
    (hstamp : extractSnapshotTimestamp file.name = some timestamp) (hle : timestamp ≤ target) :
    Base c io [file] target file base := by
  have hlist : listSnapshots [file] = [⟨timestamp, 0, 0, file.name⟩] := by
    simp [listSnapshots, hstamp]
  refine ⟨⟨⟨timestamp, 0, 0, file.name⟩, ?_, ?_⟩, hdecoded⟩
  · simp [baseSnapshot, hlist, hle]
  · simp [readSnapshot, hread]

theorem snapshotFirst_base {target : Nat} (h : 4000000000 ≤ target) :
    Base snapshotCodec (snapshotFirst.recoverIo 7) snapshotFirst.dir target
      ⟨"snapshot_4000000000.json", utf8 (snapshotText "\x7b\x7d" 0 0 0), 0⟩ {} := by
  have hdir : snapshotFirst.dir
      = [⟨"snapshot_4000000000.json", utf8 (snapshotText "\x7b\x7d" 0 0 0), 0⟩] := by
    decide +kernel
  have hstamp : extractSnapshotTimestamp "snapshot_4000000000.json" = some 4000000000 := by
    decide +kernel
  rw [hdir]
  exact base_of_single rfl (by decide +kernel) hstamp h

theorem snapshotAfter_base :
    Base snapshotCodec (snapshotAfter.recoverIo 7) snapshotAfter.dir 6000000000
      ⟨"snapshot_6000000000.json", utf8 pushedText, 1⟩ pushedStore.toStore := by
  have hdir : snapshotAfter.dir = [⟨"snapshot_6000000000.json", utf8 pushedText, 1⟩] := by
    decide +kernel
  have hstamp : extractSnapshotTimestamp "snapshot_6000000000.json" = some 6000000000 := by
    decide +kernel
  rw [hdir]
  exact base_of_single rfl (by decide +kernel) hstamp (Nat.le_refl _)

/-- A recovery to the fifth second of the nanosecond clock, from a snapshot of nothing. -/
theorem applies_once_iff_first :
    ∃ file base, AppliesOnce snapshotCodec .strings (snapshotFirst.recoverIo 7) 5000000000
      snapshotFirst.server.wal file base := by
  exact ⟨_, _, (applies_once_iff .strings snapshotCodec {} none false
    [.createSnapshot { nanos := 4000000000 }, pushA] 5000000000
    (PitrServer.sees_recoverIo snapshotFirst 7) (snapshotFirst_base (by decide))).mpr (.inl rfl)⟩

/-- The push is in the snapshot, and recovery pushes a second time. -/
theorem push_doubled :
    ∃ file base store,
      Base snapshotCodec (snapshotAfter.recoverIo 7) snapshotAfter.dir 6000000000 file base ∧
      recoverToTimestamp snapshotCodec .strings (snapshotAfter.recoverIo 7) 6000000000 = .ok store ∧
      base.values "k" = some (.list ["a"]) ∧ store.values "k" = some (.list ["a", "a"]) ∧
      ¬ AppliesOnce snapshotCodec .strings (snapshotAfter.recoverIo 7) 6000000000
        snapshotAfter.server.wal file base := by
  have hsees := PitrServer.sees_recoverIo snapshotAfter 7
  refine ⟨_, _, _, snapshotAfter_base,
    recoverToTimestamp_eq .strings hsees.files hsees.log snapshotAfter_base.baseStore, ?_, ?_,
    fun h => absurd h.once ?_⟩
  · decide +kernel
  · decide +kernel
  · decide +kernel

/-! ## The newest snapshot -/

/-- The time stamp of the newest snapshot. -/
structure Newest (dir : List SnapshotFile) (timestamp : Nat) : Prop where
  found : ∃ file ∈ dir, extractSnapshotTimestamp file.name = some timestamp
  newest : ∀ file ∈ dir, ∀ t, extractSnapshotTimestamp file.name = some t → t ≤ timestamp

theorem mem_listSnapshots {listing : List SnapshotFile} {t : Nat} :
    (∃ s ∈ listSnapshots listing, s.timestamp = t) ↔
      ∃ file ∈ listing, extractSnapshotTimestamp file.name = some t := by
  simp only [listSnapshots, List.mem_insertionSort, List.mem_filterMap, Option.map_eq_some_iff]
  constructor
  · rintro ⟨s, ⟨file, hfile, t', ht', rfl⟩, rfl⟩
    exact ⟨file, hfile, ht'⟩
  · rintro ⟨file, hfile, ht⟩
    exact ⟨_, ⟨file, hfile, t, ht, rfl⟩, rfl⟩

theorem listSnapshots_sorted (listing : List SnapshotFile) :
    (listSnapshots listing).Pairwise fun a b => b.timestamp ≤ a.timestamp := by
  have htotal : Std.Total fun a b : SnapshotMetadata => b.timestamp ≤ a.timestamp :=
    ⟨fun a b => Nat.le_total b.timestamp a.timestamp⟩
  have htrans : IsTrans SnapshotMetadata fun a b => b.timestamp ≤ a.timestamp :=
    ⟨fun _ _ _ hab hbc => hbc.trans hab⟩
  exact List.pairwise_insertionSort _ _

/-- The newest snapshot comes first. -/
theorem listSnapshots_newest {dir listing : List SnapshotFile} {timestamp : Nat}
    (h : Newest dir timestamp) (hperm : listing.Perm dir) :
    ∃ s rest, listSnapshots listing = s :: rest ∧ s.timestamp = timestamp := by
  obtain ⟨file, hfile, hstamp⟩ := h.found
  obtain ⟨t, ht, htime⟩ := mem_listSnapshots.mpr ⟨file, hperm.mem_iff.mpr hfile, hstamp⟩
  have hsorted := listSnapshots_sorted listing
  rcases hlist : listSnapshots listing with _ | ⟨s, rest⟩
  · rw [hlist] at ht
    cases ht
  · refine ⟨s, rest, rfl, Nat.le_antisymm ?_ ?_⟩
    · obtain ⟨file', hfile', hstamp'⟩ := mem_listSnapshots.mp ⟨s, by rw [hlist]; simp, rfl⟩
      exact h.newest file' (hperm.mem_iff.mp hfile') _ hstamp'
    · rw [hlist] at ht hsorted
      rcases List.mem_cons.mp ht with rfl | hrest
      · exact htime.ge
      · rw [← htime]
        exact (List.pairwise_cons.mp hsorted).1 t hrest

/-- Recovery to the latest snapshot is recovery to the time stamp of the newest one. -/
theorem recoverToLatestSnapshot_eq (c : SnapshotCodec) (rt : Runtime) {s : PitrServer}
    {io : RecoverIo} {listing : List SnapshotFile} {timestamp : Nat} (hsees : s.Sees io listing)
    (hnewest : Newest s.dir timestamp) :
    recoverToLatestSnapshot c rt io = recoverToTimestamp c rt io timestamp := by
  obtain ⟨latest, rest, hlist, htime⟩ := listSnapshots_newest hnewest hsees.order
  unfold recoverToLatestSnapshot
  rw [hsees.files]
  simp only [hlist, htime]

/-- The operation was logged in a later second than that of the snapshot. -/
def Later (timestamp : Nat) (entry : WalEntry) : Prop := timestamp / 1000000000 < entry.timestamp

instance (timestamp : Nat) (entry : WalEntry) : Decidable (Later timestamp entry) :=
  inferInstanceAs (Decidable (_ < _))

/-- In front of every entry of a later second, or at it, the log is past the nanosecond count of the
snapshot. -/
def CutOff (timestamp : Nat) (wal : List WalEntry) : Prop :=
  ∀ before entry after, wal = before ++ entry :: after → Later timestamp entry →
    ∃ e ∈ before ++ [entry], timestamp < e.timestamp

theorem carriedOut_snd (io : RecoverIo) (target : Nat) (wal : List WalEntry) :
    (carriedOut io target wal).map Prod.snd = wal.takeWhile fun e => e.timestamp ≤ target := by
  conv => rhs; rw [← stamped_snd io.clock wal]
  rw [carriedOut, List.takeWhile_map]
  rfl

/-- No entry of a later second is carried out exactly if the log is cut off in front of them. -/
theorem noneLater_iff {io : RecoverIo} {timestamp : Nat} {wal : List WalEntry} :
    (∀ e ∈ carriedOut io timestamp wal, ¬ Later timestamp e.2) ↔ CutOff timestamp wal := by
  have hentries : (∀ e ∈ carriedOut io timestamp wal, ¬ Later timestamp e.2) ↔
      ∀ e ∈ wal.takeWhile fun e => e.timestamp ≤ timestamp, ¬ Later timestamp e := by
    rw [← carriedOut_snd io timestamp wal, List.forall_mem_map]
  rw [hentries]
  constructor
  · intro h before entry after hwal hlater
    -- if nothing cuts the log off before it, the entry is carried out
    by_contra hcut
    push Not at hcut
    refine h entry ?_ hlater
    rw [hwal, List.append_cons, List.takeWhile_append_of_pos (by simpa using hcut)]
    exact List.mem_append_left _ (List.mem_append_right _ (List.mem_singleton.mpr rfl))
  · intro h entry hentry hlater
    obtain ⟨before, after, hsplit⟩ := List.append_of_mem hentry
    have hwal := List.takeWhile_append_dropWhile (p := fun e : WalEntry => e.timestamp ≤ timestamp)
      (l := wal)
    rw [hsplit, List.append_assoc] at hwal
    obtain ⟨e, he, hpast⟩ := h before entry _ hwal.symm hlater
    have hin : e ∈ wal.takeWhile fun e => e.timestamp ≤ timestamp := by
      rw [hsplit, List.append_cons]
      exact List.mem_append_left _ he
    have hle : decide (e.timestamp ≤ timestamp) = true :=
      List.mem_takeWhile_imp (p := fun e : WalEntry => decide (e.timestamp ≤ timestamp)) hin
    exact absurd (of_decide_eq_true hle) (Nat.not_le.mpr hpast)

/-- The store that recovery to the latest snapshot gives is what the operations up to the second of
the snapshot make of its store: later ones have no effect. -/
def UndoesLater (c : SnapshotCodec) (rt : Runtime) (io : RecoverIo) (timestamp : Nat)
    (wal : List WalEntry) (base : KvStore) : Prop :=
  recoverToLatestSnapshot c rt io
    = .ok (applyAll rt ((carriedOut io timestamp wal).filter fun e => ¬ Later timestamp e.2) base)

/-- In every history: recovery to the latest snapshot carries out no operation of a later second
exactly if the log is cut off in front of them, and these have no effect then. -/
theorem latest_snapshot_undoes_iff (rt : Runtime) (c : SnapshotCodec) (cfg : StoreConfig)
    (runtime : Option ApiRuntimeConfig) (notify : Bool) (history : List PitrServer.Action)
    {io : RecoverIo} {listing : List SnapshotFile} {timestamp : Nat} {base : KvStore}
    (hsees : (PitrServer.after rt c cfg runtime notify history).Sees io listing)
    (hnewest : Newest (PitrServer.after rt c cfg runtime notify history).dir timestamp)
    (hbase : baseStore c io listing timestamp = .ok base) :
    let wal := (PitrServer.after rt c cfg runtime notify history).server.wal
    ((∀ e ∈ carriedOut io timestamp wal, ¬ Later timestamp e.2) ↔ CutOff timestamp wal) ∧
      (CutOff timestamp wal → UndoesLater c rt io timestamp wal base) := by
  refine ⟨noneLater_iff, fun hcut => ?_⟩
  have hnone : (carriedOut io timestamp _).filter (fun e => ¬ Later timestamp e.2)
      = carriedOut io timestamp _ :=
    List.filter_eq_self.mpr fun e he => decide_eq_true (noneLater_iff.mpr hcut e he)
  rw [UndoesLater, hnone, recoverToLatestSnapshot_eq c rt hsees hnewest]
  exact recoverToTimestamp_eq rt hsees.files hsees.log hbase

/-- The push comes before the snapshot. -/
theorem latest_snapshot_undoes_iff_after :
    UndoesLater snapshotCodec .strings (snapshotAfter.recoverIo 7) 6000000000
      snapshotAfter.server.wal pushedStore.toStore := by
  refine (latest_snapshot_undoes_iff .strings snapshotCodec {} none false
    [pushA, .createSnapshot { nanos := 6000000000 }] (PitrServer.sees_recoverIo snapshotAfter 7)
    ⟨?_, ?_⟩ snapshotAfter_base.baseStore).2 ?_
  · decide +kernel
  · decide +kernel
  · intro before entry after hwal hlater
    have hone : [WalEntry.new 5 (.lPush "k" ["a"])] = before ++ entry :: after := hwal
    have hentry : entry ∈ [WalEntry.new 5 (.lPush "k" ["a"])] := by
      rw [hone]
      exact List.mem_append_right _ List.mem_cons_self
    rw [List.mem_singleton.mp hentry] at hlater
    exact absurd hlater (by decide)

/-- The snapshot of the fourth second is empty, and recovery to it carries out the push of the
fifth. -/
theorem later_push_recovered :
    Newest snapshotFirst.dir 4000000000 ∧
      baseStore snapshotCodec (snapshotFirst.recoverIo 7) snapshotFirst.dir 4000000000 = .ok {} ∧
      (∀ entry ∈ snapshotFirst.server.wal, Later 4000000000 entry) ∧
      ¬ UndoesLater snapshotCodec .strings (snapshotFirst.recoverIo 7) 4000000000
        snapshotFirst.server.wal {} := by
  have hnewest : Newest snapshotFirst.dir 4000000000 := by
    refine ⟨?_, ?_⟩
    · decide +kernel
    · decide +kernel
  have hsees := PitrServer.sees_recoverIo snapshotFirst 7
  have hbase := (snapshotFirst_base (Nat.le_refl 4000000000)).baseStore
  refine ⟨hnewest, hbase, by decide +kernel, fun h => ?_⟩
  rw [UndoesLater, recoverToLatestSnapshot_eq snapshotCodec .strings hsees hnewest,
    recoverToTimestamp_eq .strings hsees.files hsees.log hbase] at h
  have hvalue := congrArg (fun store => store.map fun s => s.values "k") h
  revert hvalue
  decide +kernel

end Pitr

end Daikon
