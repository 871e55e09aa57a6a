/-
# Daikon.Pitr.Restart -- a recovery, and the start after it

A recovery replaces the store in memory and leaves the store file and the log as they are. The next
start takes the file and carries the whole log out on it. `recovery_survives_restart` says after
which recoveries this gives the recovered values again.

A site is a server with the file of its store beside the snapshots. Its stop is graceful and saves the
store, or is a crash and leaves the file of the last save, and both are followed by the start that loads and
replays.

What decides is again said key by key. Replay and recovery read the same log in two ways, and they begin
with different stores: so at a key either some entry makes the base irrelevant and is read alike from then
on (`PinnedAlike`), or the two bases agree and every entry is read alike (`SameBase`). `later_push_back` is
a recovery whose point is undone by the next start, which carries out what lies after the target as well.

An append of a request in the history may fail. It is taken to have written nothing then; what becomes of a
log whose failing appends leave a part of their line is told in `Daikon.Recovery.OnDisk`.
-/
import Daikon.Pitr.Recover

namespace Daikon

open Lib.KeyedLog (run run_append)

/-! ## Histories with restarts -/

/-- A server, the directory of its snapshots, and what its store file holds. -/
structure Site extends PitrServer where
  file : Option SavedStore := none

namespace Site

/-- A step of a server with a data file, a log and snapshots. -/
inductive Action where
  | request (io : Io) (req : Request)
  | createSnapshot (io : SnapshotIo)
  | recover (io : Io) (disk : Pitr.RecoverIo) (target : Nat)
  /-- A stop, with the graceful save or without, and the next start with the clocks of its replay. -/
  | restart (graceful : Bool) (clock : Nat → Nat) (lruOrder : List String)

/-- What `main` makes of the default limits. -/
def storeConfig (maxMemoryBytes : Nat) : StoreConfig := { maxMemoryBytes }

/-- The store file after a stop. -/
def stopped (s : Site) (graceful : Bool) : Option SavedStore :=
  if graceful then some s.server.store.saved else s.file

/-- `load_from_file`, or a new store where there is no file, and `set_config`. -/
def loadedStore (maxMemoryBytes : Nat) (file : Option SavedStore) (lruOrder : List String) : KvStore :=
  (file.getD {}).toStore.loaded (storeConfig maxMemoryBytes) lruOrder

/-- The store after the start. -/
def start (rt : Runtime) (maxMemoryBytes : Nat) (s : Site) (graceful : Bool) (clock : Nat → Nat)
    (lruOrder : List String) : Except String KvStore :=
  replayWal rt (stamped clock s.server.wal)
    (loadedStore maxMemoryBytes (s.stopped graceful) lruOrder)

section

variable (rt : Runtime) (c : SnapshotCodec) (maxMemoryBytes : Nat) (notify : Bool)

/-- `pitr_recover_to_timestamp`. -/
def recover (s : Site) (io : Io) (disk : Pitr.RecoverIo) (target : Nat) : Site :=
  let recovered := Pitr.recoverToTimestamp c rt disk target
  { s with server := (s.server.handle rt io (.pitrRecoverToTimestamp target recovered)).2 }

/-- A start whose replay fails is no start, and leaves the files. -/
def step (s : Site) : Action → Site
  | .request io req => { s with toPitrServer := s.toPitrServer.step rt c (.request io req) }
  | .createSnapshot io => { s with toPitrServer := s.toPitrServer.step rt c (.createSnapshot io) }
  | .recover io disk target => s.recover rt c io disk target
  | .restart graceful clock lruOrder =>
      match s.start rt maxMemoryBytes graceful clock lruOrder with
      | .ok store =>
          { s with
            server := { s.server with store := store.setKeyspaceNotificationsEnabled notify }
            file := s.stopped graceful }
      | .error _ => { s with file := s.stopped graceful }

/-- The state that a history leads to. -/
def after (runtime : Option ApiRuntimeConfig) (history : List Action) : Site :=
  history.foldl (step rt c maxMemoryBytes notify)
    { server := .fresh (storeConfig maxMemoryBytes) runtime notify }

end

/-! ## The condition -/

/-- Replay and recovery make the same call of every entry of the key. -/
def AlikeAt (rt : Runtime) (k : String) (wal : List WalEntry) : Prop :=
  ∀ entry ∈ wal, k ∈ entry.operation.keys → entry.operation.SelfDecoding rt

/-- Some entry puts or removes the key, and from it on replay and recovery make the same calls. -/
def PinnedAlike (rt : Runtime) (cfg : StoreConfig) (k : String) (wal : List WalEntry) : Prop :=
  ∃ before entry after, wal = before ++ entry :: after ∧ entry.operation.SelfDecoding rt ∧
    entry.operation.Overwrites rt cfg k ∧ AlikeAt rt k after

/-- The start finds what the recovery found, or, with the graceful save, what it gave and what the
entries leave alone. -/
def SameBase (rt : Runtime) (cfg : StoreConfig) (k : String) (wal : List WalEntry)
    (base file : Option Value) (graceful : Bool) : Prop :=
  if graceful then
    (∀ entry ∈ wal, k ∉ entry.operation.keys) ∨ (Plain base ∧ MildAt rt cfg wal k)
  else file = base

/-- What is asked of a recovery: it leaves no entry out, replay goes through and gives every key what
recovery gives it, and the recovery evicts nothing. -/
structure Repeatable (rt : Runtime) (cfg : StoreConfig) (s : Site) (disk : Pitr.RecoverIo)
    (target : Nat) (base : KvStore) (graceful : Bool) : Prop where
  covers : ∀ entry ∈ s.server.wal, entry.timestamp ≤ target
  replayable : ∀ entry ∈ s.server.wal, entry.operation.Replayable rt cfg
  keys : ∀ k, PinnedAlike rt cfg k s.server.wal ∨ (AlikeAt rt k s.server.wal ∧
    SameBase rt cfg k s.server.wal (base.values k) ((s.file.getD {}).toStore.values k) graceful)
  fits : base.Fits (base.growth (KvStore.allCells rt base.config base.inTransaction
    (rawCalls (stamped disk.clock s.server.wal))))

/-- Replay at the start evicts nothing. -/
def StartFits (rt : Runtime) (maxMemoryBytes : Nat) (s : Site) (graceful : Bool) (clock : Nat → Nat)
    (lruOrder : List String) : Prop :=
  let loaded := loadedStore maxMemoryBytes (s.stopped graceful) lruOrder
  loaded.Fits (loaded.growth (KvStore.allCells rt loaded.config loaded.inTransaction
    (replayCalls rt (stamped clock s.server.wal))))

instance (rt : Runtime) (maxMemoryBytes : Nat) (s : Site) (graceful : Bool) (clock : Nat → Nat)
    (lruOrder : List String) : Decidable (s.StartFits rt maxMemoryBytes graceful clock lruOrder) :=
  inferInstanceAs (Decidable (KvStore.Fits _ _))

/-- A stop and a start give the values that the server holds. -/
def SurvivesRestart (rt : Runtime) (maxMemoryBytes : Nat) (s : Site) (graceful : Bool)
    (clock : Nat → Nat) (lruOrder : List String) : Prop :=
  ∃ store, s.start rt maxMemoryBytes graceful clock lruOrder = .ok store ∧
    store.values = s.server.store.values

/-! ## The log of a history -/

/-- No entry is a HyperLogLog operation. -/
def LogKeyed (s : Site) : Prop := ∀ entry ∈ s.server.wal, entry.operation.raw.Keyed

theorem handle_logKeyed {rt : Runtime} {s : Site} (h : s.LogKeyed) (io : Io) (req : Request) :
    ∀ entry ∈ (s.server.handle rt io req).2.wal, entry.operation.raw.Keyed := by
  intro entry hentry
  rw [Server.handle_wal] at hentry
  rcases List.mem_append.mp hentry with hold | hnew
  · exact h entry hold
  · exact Server.effects_entries_keyed hnew

theorem LogKeyed.step {rt : Runtime} {c : SnapshotCodec} {maxMemoryBytes : Nat} {notify : Bool}
    {s : Site} (h : s.LogKeyed) (a : Action) : (s.step rt c maxMemoryBytes notify a).LogKeyed := by
  cases a with
  | request io req => exact handle_logKeyed h io req
  | createSnapshot io => exact h
  | recover io disk target => exact handle_logKeyed h io _
  | restart graceful clock lruOrder =>
      simp only [Site.step]
      split
      · exact h
      · exact h

theorem after_logKeyed (rt : Runtime) (c : SnapshotCodec) (maxMemoryBytes : Nat) (notify : Bool)
    (runtime : Option ApiRuntimeConfig) (history : List Action) :
    (after rt c maxMemoryBytes notify runtime history).LogKeyed := by
  have hrun : ∀ (l : List Action) (s : Site), s.LogKeyed →
      (l.foldl (Site.step rt c maxMemoryBytes notify) s).LogKeyed := by
    intro l
    induction l with
    | nil => exact fun s h => h
    | cons a l ih => exact fun s h => ih _ (h.step a)
  exact hrun history _ fun entry hentry => by cases hentry

/-! ## Recovery and replay, key by key -/

/-- The cells of the calls that a recovery makes of a log. -/
def rawLogCells (rt : Runtime) (cfg : StoreConfig) (wal : List WalEntry) : List (String × CellOp) :=
  wal.flatMap fun entry => entry.operation.raw.cells rt cfg false 0

theorem valueUpdates_rawCalls (rt : Runtime) (cfg : StoreConfig) (entries : List (Nat × WalEntry)) :
    valueUpdates (KvStore.allCells rt cfg false (rawCalls entries))
      = valueUpdates (rawLogCells rt cfg (entries.map Prod.snd)) := by
  induction entries with
  | nil => rfl
  | cons e entries ih =>
      obtain ⟨now, entry⟩ := e
      rw [List.map_cons, rawLogCells, List.flatMap_cons, valueUpdates_append, ← rawLogCells, ← ih,
        rawCalls, List.map_cons, KvStore.allCells, List.flatMap_cons, valueUpdates_append,
        valueUpdates_now rt cfg false now 0]
      rfl

section

variable {rt : Runtime} {cfg : StoreConfig} {k : String}

theorem opsAt_eq_nil {inTx : Bool} {now : Nat} {w : Write} (h : k ∉ w.keys) :
    opsAt k (w.cells rt cfg inTx now) = [] := by
  refine List.eq_nil_iff_forall_not_mem.mpr fun op hop => h ?_
  exact mem_keys_of_mem_cells (mem_opsAt.mp hop)

/-- At a key that an entry does not name, neither interpreter does anything. -/
theorem opsAt_not_named {op : WalOperation} (h : k ∉ op.keys) :
    opsAt k (op.replayedCells rt cfg) = [] ∧ opsAt k (op.raw.cells rt cfg false 0) = [] := by
  refine ⟨?_, opsAt_eq_nil (by rw [WalOperation.raw_keys]; exact h)⟩
  unfold WalOperation.replayedCells
  cases hw : op.replayed rt with
  | none => rfl
  | some w => exact opsAt_eq_nil (by rw [WalOperation.replayed_keys hw]; exact h)

theorem replayedCells_of_selfDecoding {op : WalOperation} (h : op.SelfDecoding rt) :
    op.replayedCells rt cfg = op.raw.cells rt cfg false 0 := by
  rw [WalOperation.replayedCells, WalOperation.replayed_of_selfDecoding h]
  rfl

theorem AlikeAt.ops {wal : List WalEntry} (h : AlikeAt rt k wal) :
    opsAt k (logCells rt cfg wal) = opsAt k (rawLogCells rt cfg wal) := by
  induction wal with
  | nil => rfl
  | cons entry wal ih =>
      rw [logCells, rawLogCells, List.flatMap_cons, List.flatMap_cons, opsAt_append, opsAt_append,
        ← logCells, ← rawLogCells, ih fun e he => h e (List.mem_cons_of_mem _ he)]
      by_cases hk : k ∈ entry.operation.keys
      · rw [replayedCells_of_selfDecoding (h entry (by simp) hk)]
      · obtain ⟨hreplayed, hraw⟩ := @opsAt_not_named rt cfg k _ hk
        rw [hreplayed, hraw]

/-- From any two starts, replay and recovery give a pinned key the same value. -/
theorem PinnedAlike.values {wal : List WalEntry} (h : PinnedAlike rt cfg k wal)
    (v v' : Option Value) :
    CellOp.onValues (opsAt k (logCells rt cfg wal)) v
      = CellOp.onValues (opsAt k (rawLogCells rt cfg wal)) v' := by
  obtain ⟨before, entry, after, rfl, hself, ⟨cell, hcell, hconst⟩, hafter⟩ := h
  have hlog : opsAt k (logCells rt cfg (before ++ entry :: after))
      = opsAt k (logCells rt cfg before) ++ (opsAt k (entry.operation.replayedCells rt cfg)
          ++ opsAt k (logCells rt cfg after)) := by
    simp only [logCells, List.flatMap_append, List.flatMap_cons, opsAt_append]
  have hraw : opsAt k (rawLogCells rt cfg (before ++ entry :: after))
      = opsAt k (rawLogCells rt cfg before) ++ (opsAt k (entry.operation.replayedCells rt cfg)
          ++ opsAt k (logCells rt cfg after)) := by
    rw [hafter.ops, replayedCells_of_selfDecoding hself]
    simp only [rawLogCells, List.flatMap_append, List.flatMap_cons, opsAt_append]
  rw [hlog, hraw, CellOp.onValues_append (opsAt k (logCells rt cfg before)),
    CellOp.onValues_append (opsAt k (rawLogCells rt cfg before))]
  exact CellOp.onValues_constant (List.mem_append_left _ hcell) hconst _ _

/-- Where the entries are mild or do not name the key, replay leaves alone what they gave. -/
theorem settled_after {wal : List WalEntry} {base : Option Value}
    (h : (∀ entry ∈ wal, k ∉ entry.operation.keys) ∨ (Plain base ∧ MildAt rt cfg wal k)) :
    CellOp.onValues (opsAt k (logCells rt cfg wal))
        (CellOp.onValues (opsAt k (logCells rt cfg wal)) base)
      = CellOp.onValues (opsAt k (logCells rt cfg wal)) base := by
  rcases h with hunnamed | ⟨hplain, hmild⟩
  · have hnone : opsAt k (logCells rt cfg wal) = [] := by
      refine List.eq_nil_iff_forall_not_mem.mpr fun op hop => ?_
      obtain ⟨entry, hentry, hcell⟩ := List.mem_flatMap.mp (mem_opsAt.mp hop)
      have hops := (@opsAt_not_named rt cfg k _ (hunnamed entry hentry)).1
      rw [List.eq_nil_iff_forall_not_mem] at hops
      exact hops op (mem_opsAt.mpr hcell)
    rw [hnone]
    rfl
  · have hnone : ∀ op ∈ ([] : List CellOp), op.Mild := fun op hop => by cases hop
    exact (CellOp.settled_append hnone hmild.mild hplain rfl).2

end

/-! ## The two stores -/

/-- What the recovered store holds at a key. -/
theorem recovered_values {rt : Runtime} {maxMemoryBytes : Nat} {wal : List WalEntry}
    {clock : Nat → Nat} {base : KvStore} (hsaved : ∃ saved : SavedStore, base = saved.toStore)
    (hkeyed : ∀ entry ∈ wal, entry.operation.raw.Keyed)
    (hfits : base.Fits (base.growth (KvStore.allCells rt base.config base.inTransaction
      (rawCalls (stamped clock wal))))) (k : String) :
    (Pitr.applyAll rt (stamped clock wal) base).values k
      = CellOp.onValues (opsAt k (rawLogCells rt (storeConfig maxMemoryBytes) wal))
          (base.values k) := by
  obtain ⟨saved, rfl⟩ := hsaved
  have hcalls : ∀ call ∈ rawCalls (stamped clock wal), call.2.Keyed := by
    intro call hcall
    obtain ⟨e, he, rfl⟩ := List.mem_map.mp hcall
    exact hkeyed e.2 (mem_stamped he)
  have hmoves := KvStore.writes_refine rt _ saved.toStore hcalls hfits
  have hcells : KvStore.allCells rt saved.toStore.config saved.toStore.inTransaction
      (rawCalls (stamped clock wal))
        = KvStore.allCells rt (storeConfig maxMemoryBytes) false (rawCalls (stamped clock wal)) := by
    have hcongr := @cells_congr rt (storeConfig maxMemoryBytes) saved.toStore.config rfl rfl false
    simp only [KvStore.allCells, show saved.toStore.inTransaction = false from rfl, hcongr]
  rw [Pitr.applyAll_writes, hmoves.values, hcells, valueUpdates_rawCalls, stamped_snd, run_valueUpdates]

/-- A start goes through, and gives a key what the entries make of what the file holds. -/
theorem start_values {rt : Runtime} {maxMemoryBytes : Nat} {s : Site} {graceful : Bool}
    {clock : Nat → Nat} {lruOrder : List String} (hkeyed : s.LogKeyed)
    (hreplayable : ∀ entry ∈ s.server.wal, entry.operation.Replayable rt (storeConfig maxMemoryBytes))
    (hfits : s.StartFits rt maxMemoryBytes graceful clock lruOrder) :
    ∃ store, s.start rt maxMemoryBytes graceful clock lruOrder = .ok store ∧
      ∀ k, store.values k
        = CellOp.onValues (opsAt k (logCells rt (storeConfig maxMemoryBytes) s.server.wal))
            (((s.stopped graceful).getD {}).toStore.values k) := by
  obtain ⟨store, hstart, hvalues, -⟩ :=
    @replayWal_values rt (loadedStore maxMemoryBytes (s.stopped graceful) lruOrder) s.server.wal clock
      (fun entry hentry => ⟨hreplayable entry hentry,
        fun _ => WalOperation.replayed_keyed (hkeyed entry hentry)⟩) rfl hfits
  refine ⟨store, hstart, fun k => ?_⟩
  rw [hvalues, run_valueUpdates]
  rfl

/-- An admitted recovery that goes through leaves its store, and nothing else is changed. -/
theorem recover_eq {rt : Runtime} {c : SnapshotCodec} {s : Site} {io : Io} {disk : Pitr.RecoverIo}
    {target : Nat} {store : KvStore} (hkey : requireApiKey io.headers s.server.runtime = none)
    (hstore : Pitr.recoverToTimestamp c rt disk target = .ok store) :
    s.recover rt c io disk target = { s with server := { s.server with store } } := by
  unfold recover Server.handle
  rw [hstore, hkey]
  rfl

/-- `b` is pushed to `k` in the seventh second. -/
def pushB : Action := .request (Io.healthy 7) (.listLpush "k" ["b"])

/-- The pushes of the fifth and of the seventh second. -/
def pushes (history : List Action) : Site :=
  after .strings Pitr.snapshotCodec 1000 false none
    (.request (Io.healthy 5) (.listLpush "k" ["a"]) :: history)

end Site

end Daikon
