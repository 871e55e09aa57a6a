/-
# Daikon.Replica.Overlap -- several syncs of one replica at the same time

The polling task and a manual sync call `sync` on the same replica, and nothing makes one wait for
the other. A call is taken apart into the steps between which it holds no lock. The check that an
entry is new and the note that it was applied are two of them, with the apply in between:
`overlapping_syncs_safe` says which orders of the steps keep an entry from being applied twice.

Nothing in the step function enforces an order: every call may take its next step at any time, and requests
make the master's log longer in between. The condition `Apart` is on the state before a step. It asks, of a
call that is about to find an entry new, that no other call holds that entry, found new and not noted yet.

The invariant `Inv` counts: the index of the replica and the entries that calls have applied and not added
to it are together the entries applied, and no entry is held twice. `alone` ties the steps to the code, as a
call that nobody interrupts does what `ReplicationReplica.sync` does. `entry_applied_twice` is a run outside
the condition.
-/
import Daikon.Replica.Sync
import Mathlib.Logic.Function.Iterate

namespace Daikon

open Lib.Run (Always Guarded)

/-- What a call has left to do with the answer of its fetch. -/
structure Batch where
  /-- The place in the master's log of the first entry of the answer. -/
  start : Nat
  /-- The number of entries gone through. -/
  read : Nat
  rest : List WalEntry
  batchSeen : Finset Nat
  appliedCount : Nat
  totalEntries : Nat

/-- How far a call of `sync` has come. -/
inductive SyncPhase where
  | reading
  | fetching (lastApplied : Nat)
  | scanning (b : Batch)
  /-- The n-th entry of the answer has passed both guards. -/
  | applying (n : Nat) (entry : WalEntry) (b : Batch)
  /-- It was applied, and its time stamp is still to be noted. -/
  | inserting (n : Nat) (timestamp : Nat) (b : Batch)
  | reporting (appliedCount totalEntries : Nat)
  | done (result : Except KvStoreError Nat)

namespace Batch

/-- The batch without its first entry. -/
def advance (b : Batch) (rest : List WalEntry) : Batch := { b with read := b.read + 1, rest }

/-- Note the time stamp of an entry. -/
def see (b : Batch) (timestamp : Nat) : Batch := { b with batchSeen := insert timestamp b.batchSeen }

/-- Count an entry that was carried out. -/
def countOne (b : Batch) : Batch := { b with appliedCount := b.appliedCount + 1 }

end Batch

namespace SyncPhase

/-- The next step of a call: where it has come then, and the replica. -/
def next (rt : Runtime) (io : SyncIo) (master : List WalEntry) (r : ReplicationReplica) :
    SyncPhase → SyncPhase × ReplicationReplica
  | reading => (fetching r.lastAppliedIndex, r)
  | fetching lastApplied =>
      match io.heartbeat, io.fetch with
      | some e, _ => (done (.error e), r)
      | none, some e => (done (.error e), r)
      | none, none =>
          match getWalEntries master lastApplied 100 with
          | [] =>
              (done (.ok 0), { r with
                lagEntries := master.length - lastApplied
                lastSuccessfulSyncUnixSecs := some io.finishedAt
                lastSyncDurationMs := some io.durationMs })
          | entry :: entries =>
              (scanning ⟨lastApplied, 0, entry :: entries, ∅, 0, master.length⟩, r)
  | scanning b =>
      match b.rest with
      | [] =>
          (reporting b.appliedCount b.totalEntries,
            { r with lastAppliedIndex := r.lastAppliedIndex + b.appliedCount })
      | entry :: rest =>
          if entry.timestamp ∈ b.batchSeen then (scanning (b.advance rest), r)
          else if entry.timestamp ∈ r.appliedEntryTimestamps then
            (scanning ((b.advance rest).see entry.timestamp), r)
          else (applying b.read entry ((b.advance rest).see entry.timestamp), r)
  | applying n entry b =>
      match r.applyWalEntry rt (io.now n) (io.disk n) entry with
      | (.error e, r) => (done (.error e), r)
      | (.ok (), r) => (inserting n entry.timestamp b, r)
  | inserting _ timestamp b => (scanning b.countOne, r.remember timestamp)
  | reporting appliedCount totalEntries => (done (.ok appliedCount), r.finish io totalEntries)
  | done result => (done result, r)

/-- The entry, by its place in the master's log, that the call has found new and not noted yet. -/
def held : SyncPhase → Option Nat
  | applying n _ b => some (b.start + n)
  | inserting n _ b => some (b.start + n)
  | _ => none

/-- The entries the call has applied and not added to the index. -/
def uncounted : SyncPhase → Nat
  | scanning b => b.appliedCount
  | applying _ _ b => b.appliedCount
  | inserting _ _ b => b.appliedCount + 1
  | _ => 0

/-- The entry that the step carries out on the store, if it does. -/
def carriesOut (rt : Runtime) (io : SyncIo) (r : ReplicationReplica) : SyncPhase → Option Nat
  | applying n entry b =>
      match (applyOperation rt (io.now n) r.store entry.operation).1 with
      | .ok () => some (b.start + n)
      | .error _ => none
  | _ => none

/-! ## A call on its own -/

/-- Taking steps one after another, a call comes from one phase to the other. -/
def Leads (rt : Runtime) (io : SyncIo) (master : List WalEntry)
    (c d : SyncPhase × ReplicationReplica) : Prop :=
  ∃ k, (fun c : SyncPhase × ReplicationReplica => next rt io master c.2 c.1)^[k] c = d

theorem Leads.refl {rt : Runtime} {io : SyncIo} {master : List WalEntry}
    (c : SyncPhase × ReplicationReplica) : Leads rt io master c c := ⟨0, rfl⟩

theorem Leads.step {rt : Runtime} {io : SyncIo} {master : List WalEntry} {phase : SyncPhase}
    {r : ReplicationReplica} {d : SyncPhase × ReplicationReplica}
    (h : Leads rt io master (next rt io master r phase) d) : Leads rt io master (phase, r) d := by
  obtain ⟨k, hk⟩ := h
  exact ⟨k + 1, hk⟩

/-- The end of a call whose loop has given this result. -/
def finished (io : SyncIo) (totalEntries : Nat) :
    Except KvStoreError Nat × ReplicationReplica → SyncPhase × ReplicationReplica
  | (.error e, r) => (done (.error e), r)
  | (.ok appliedCount, r) =>
      (done (.ok appliedCount),
        { r with lastAppliedIndex := r.lastAppliedIndex + appliedCount }.finish io totalEntries)

/-- The loop of the steps is the loop of `sync`. -/
theorem scanning_leads (rt : Runtime) (io : SyncIo) (master : List WalEntry) (start total : Nat)
    (rest : List WalEntry) :
    ∀ (n count : Nat) (seen : Finset Nat) (r : ReplicationReplica),
      Leads rt io master (scanning ⟨start, n, rest, seen, count, total⟩, r)
        (finished io total (ReplicationReplica.syncLoop rt io n rest seen count r)) := by
  induction rest with
  | nil => intro n count seen r; exact (Leads.refl _).step.step
  | cons entry rest ih =>
      intro n count seen r
      rw [ReplicationReplica.syncLoop]
      refine Leads.step ?_
      simp only [next]
      -- each turn of the loop is one, two or three steps
      by_cases hseen : entry.timestamp ∈ seen
      · rw [if_pos hseen, if_pos hseen]
        exact ih (n + 1) count seen r
      · rw [if_neg hseen, if_neg hseen]
        by_cases hold : entry.timestamp ∈ r.appliedEntryTimestamps
        · rw [if_pos hold, if_pos hold]
          exact ih (n + 1) count _ r
        · rw [if_neg hold, if_neg hold]
          refine Leads.step ?_
          simp only [next]
          rcases r.applyWalEntry rt (io.now n) (io.disk n) entry with ⟨e | _, r'⟩
          · exact Leads.refl _
          · exact (ih (n + 1) (count + 1) _ (r'.remember entry.timestamp)).step

/-- Without anybody else's steps in between, a call does what `sync` does. -/
theorem alone (rt : Runtime) (io : SyncIo) (master : List WalEntry) (r : ReplicationReplica) :
    Leads rt io master (reading, r) (done (r.sync rt io master).1, (r.sync rt io master).2) := by
  refine Leads.step (Leads.step ?_)
  simp only [next]
  unfold ReplicationReplica.sync
  cases io.heartbeat with
  | some e => exact Leads.refl _
  | none =>
      cases io.fetch with
      | some e => exact Leads.refl _
      | none =>
          simp only
          cases getWalEntries master r.lastAppliedIndex 100 with
          | nil => exact Leads.refl _
          | cons entry entries =>
              have hloop := scanning_leads rt io master r.lastAppliedIndex master.length
                (entry :: entries) 0 0 ∅ r
              simp only
              rcases hr : ReplicationReplica.syncLoop rt io 0 (entry :: entries) ∅ 0 r with
                ⟨e | count, r'⟩
              · rw [hr] at hloop
                exact hloop
              · rw [hr] at hloop
                exact hloop

end SyncPhase

/-- A master's log, one replica, and the calls of its `sync` that are on their way. -/
structure OverlappingSyncs where
  master : List WalEntry
  replica : ReplicationReplica
  /-- The calls made so far, each with its environment. -/
  calls : List (SyncIo × SyncPhase) := []
  /-- History, read by nothing: the entries carried out, by their place in the master's log. -/
  applied : List Nat

namespace OverlappingSyncs

/-- What can happen next. -/
inductive Action where
  /-- The master logs an operation. -/
  | append (now : Nat) (operation : WalOperation)
  /-- Somebody calls `sync`. -/
  | call (io : SyncIo)
  /-- The i-th call takes its next step. -/
  | advance (i : Nat)

/-- What happens then. A call holds no lock from its first step to its last, so others come between. -/
def step (rt : Runtime) (s : OverlappingSyncs) : Action → OverlappingSyncs
  | .append now operation => { s with master := s.master ++ [WalEntry.new now operation] }
  | .call io => { s with calls := s.calls ++ [(io, .reading)] }
  | .advance i =>
      match s.calls[i]? with
      | none => s
      | some (io, phase) =>
          let r := phase.next rt io s.master s.replica
          { s with
            replica := r.2
            calls := s.calls.set i (io, r.1)
            applied := s.applied ++ (phase.carriesOut rt io s.replica).toList }

/-- A replica started over a local log with the first `n` entries of the master. -/
def start (store : KvStore) (master : List WalEntry) (n : Nat) : OverlappingSyncs :=
  { master
    replica := .new store (master.take n)
    applied := List.range (master.take n).length }

/-- No entry was applied twice, and the index counts no more entries than were applied. -/
structure Safe (s : OverlappingSyncs) : Prop where
  once : s.applied.Nodup
  index : s.replica.lastAppliedIndex ≤ s.applied.dedup.length

/-- No call finds an entry new while another one holds it, and what a call carries out it can append
to the local log. -/
def Apart (rt : Runtime) (s : OverlappingSyncs) : Action → Prop
  | .advance i =>
      ∀ io phase, s.calls[i]? = some (io, phase) →
        match phase with
        | .scanning _ =>
            ∀ p, (phase.next rt io s.master s.replica).1.held = some p →
              ∀ c ∈ s.calls, c.2.held ≠ some p
        | .applying n entry _ => io.disk n = none ∨ entry.operation.Refused s.replica.store
        | _ => True
  | _ => True

/-! ## What a call knows -/

/-- The rest of a batch is a part of the master's log. -/
structure BatchInv (base : Nat) (master : List WalEntry) (b : Batch) : Prop where
  start : base ≤ b.start
  rest : b.rest <+: master.drop (b.start + b.read)

/-- What a call relies on, from a log position `base` on. -/
def CallInv (base : Nat) (s : OverlappingSyncs) : SyncPhase → Prop
  | .fetching lastApplied => base ≤ lastApplied
  | .scanning b => BatchInv base s.master b
  | .applying n entry b =>
      BatchInv base s.master b ∧ s.master[b.start + n]? = some entry ∧ b.start + n ∉ s.applied
  | .inserting n timestamp b =>
      BatchInv base s.master b ∧ (s.master[b.start + n]?).map WalEntry.timestamp = some timestamp
  | _ => True

/-- The call has applied the entry at this place and has not noted it. -/
def Inserts (p : Nat) : SyncPhase → Prop
  | .inserting n _ b => b.start + n = p
  | _ => False

/-- No two calls hold the same entry. -/
def HeldApart (calls : List (SyncIo × SyncPhase)) : Prop :=
  ∀ (i j : Nat) (c d : SyncIo × SyncPhase), calls[i]? = some c → calls[j]? = some d → i ≠ j →
    ∀ p, c.2.held = some p → d.2.held ≠ some p

/-- The invariant of runs that keep apart. -/
structure Inv (base : Nat) (s : OverlappingSyncs) : Prop where
  index : base ≤ s.replica.lastAppliedIndex
  calls : ∀ c ∈ s.calls, CallInv base s c.2
  apart : HeldApart s.calls
  noted : ∀ p ∈ s.applied, base ≤ p →
    (∃ e, s.master[p]? = some e ∧ e.timestamp ∈ s.replica.appliedEntryTimestamps) ∨
      ∃ c ∈ s.calls, Inserts p c.2
  once : s.applied.Nodup
  count : s.replica.lastAppliedIndex + (s.calls.map fun c => c.2.uncounted).sum ≤ s.applied.length

theorem Inv.safe {base : Nat} {s : OverlappingSyncs} (h : Inv base s) : Safe s := by
  refine ⟨h.once, ?_⟩
  rw [h.once.dedup]
  exact (Nat.le_add_right _ _).trans h.count

theorem Inserts.held {p : Nat} {phase : SyncPhase} (h : Inserts p phase) : phase.held = some p := by
  cases phase with
  | inserting n timestamp b => exact congrArg some h
  | _ => exact h.elim

/-- A longer log changes nothing for a call. -/
theorem CallInv.append {base : Nat} {s : OverlappingSyncs} {phase : SyncPhase}
    (h : CallInv base s phase) (more : List WalEntry) :
    CallInv base { s with master := s.master ++ more } phase := by
  have hbatch : ∀ {b : Batch}, BatchInv base s.master b → BatchInv base (s.master ++ more) b := by
    intro b hb
    refine ⟨hb.start, hb.rest.trans ?_⟩
    rw [List.drop_append]
    exact List.prefix_append _ _
  have hlookup : ∀ {p : Nat} {e : WalEntry}, s.master[p]? = some e →
      (s.master ++ more)[p]? = some e := by
    intro p e he
    rw [List.getElem?_append_left (List.getElem?_eq_some_iff.mp he).1]
    exact he
  cases phase with
  | scanning b => exact hbatch h
  | applying n entry b => exact ⟨hbatch h.1, hlookup h.2.1, h.2.2⟩
  | inserting n timestamp b =>
      refine ⟨hbatch h.1, ?_⟩
      obtain ⟨e, he, htimestamp⟩ := Option.map_eq_some_iff.mp h.2
      rw [hlookup he]
      exact congrArg some htimestamp
  | _ => exact h

/-! ## One call moves on -/

theorem sum_map_set {l : List (SyncIo × SyncPhase)} {c : SyncIo × SyncPhase}
    (c' : SyncIo × SyncPhase) (f : SyncIo × SyncPhase → Nat) :
    ∀ {i : Nat}, l[i]? = some c → ((l.set i c').map f).sum + f c = (l.map f).sum + f c' := by
  induction l with
  | nil => intro i h; cases h
  | cons d l ih =>
      intro i h
      cases i with
      | zero =>
          cases h
          simp only [List.set_cons_zero, List.map_cons, List.sum_cons]
          omega
      | succ i =>
          have hrest := ih (i := i) h
          simp only [List.set_cons_succ, List.map_cons, List.sum_cons]
          omega

theorem HeldApart.set {calls : List (SyncIo × SyncPhase)} (h : HeldApart calls) {i : Nat}
    {c c' : SyncIo × SyncPhase} (hi : calls[i]? = some c)
    (hheld : ∀ p, c'.2.held = some p → c.2.held = some p ∨ ∀ d ∈ calls, d.2.held ≠ some p) :
    HeldApart (calls.set i c') := by
  have hother : ∀ {j : Nat} {d : SyncIo × SyncPhase}, i ≠ j → calls[j]? = some d →
      ∀ p, c'.2.held = some p → d.2.held ≠ some p := by
    intro j d hij hj p hp
    rcases hheld p hp with hold | hfree
    · exact h i j c d hi hj hij p hold
    · exact hfree d (List.mem_of_getElem? hj)
  intro j k d e hj hk hjk p hd he
  rw [List.getElem?_set] at hj hk
  by_cases hij : i = j
  · have hik : i ≠ k := fun heq => hjk (hij.symm.trans heq)
    rw [if_neg hik] at hk
    rw [if_pos hij] at hj
    split at hj
    · cases hj
      exact hother hik hk p hd he
    · cases hj
  · rw [if_neg hij] at hj
    by_cases hik : i = k
    · rw [if_pos hik] at hk
      split at hk
      · cases hk
        exact hother hij hj p he hd
      · cases hk
    · rw [if_neg hik] at hk
      exact h j k d e hj hk hjk p hd he

/-- Of the calls about to note an entry, those stay that do not move. -/
theorem inserts_set {calls : List (SyncIo × SyncPhase)} {i p : Nat} {c : SyncIo × SyncPhase}
    (c' : SyncIo × SyncPhase) (hi : calls[i]? = some c) (h : ∃ d ∈ calls, Inserts p d.2) :
    Inserts p c.2 ∨ ∃ d ∈ calls.set i c', Inserts p d.2 := by
  obtain ⟨d, hd, hinserts⟩ := h
  obtain ⟨j, hj⟩ := List.getElem?_of_mem hd
  by_cases hij : i = j
  · subst hij
    rw [hi] at hj
    cases hj
    exact .inl hinserts
  · refine .inr ⟨d, ?_, hinserts⟩
    refine List.mem_of_getElem? (i := j) ?_
    rw [List.getElem?_set_ne hij]
    exact hj

/-- A step that applies nothing and notes nothing. -/
theorem Inv.move {base : Nat} {s : OverlappingSyncs} (h : Inv base s) {i : Nat} {io : SyncIo}
    {phase phase' : SyncPhase} {r : ReplicationReplica} (hi : s.calls[i]? = some (io, phase))
    (hnotes : r.appliedEntryTimestamps = s.replica.appliedEntryTimestamps)
    (hindex : base ≤ r.lastAppliedIndex) (hcall : CallInv base s phase')
    (hphase : ∀ p, ¬ Inserts p phase)
    (hheld : ∀ p, phase'.held = some p → ∀ d ∈ s.calls, d.2.held ≠ some p)
    (hcount : r.lastAppliedIndex + phase'.uncounted
      ≤ s.replica.lastAppliedIndex + phase.uncounted) :
    Inv base { s with replica := r, calls := s.calls.set i (io, phase') } := by
  have hlength : i < s.calls.length := (List.getElem?_eq_some_iff.mp hi).1
  refine ⟨hindex, ?_, h.apart.set hi fun p hp => .inr (hheld p hp), ?_, h.once, ?_⟩
  · intro c hc
    rcases List.mem_or_eq_of_mem_set hc with hold | rfl
    · exact h.calls c hold
    · exact hcall
  · intro p hp hbase
    rcases h.noted p hp hbase with hnoted | hinserts
    · rw [← hnotes] at hnoted
      exact .inl hnoted
    · -- the call that inserts is another one
      exact .inr ((inserts_set _ hi hinserts).resolve_left (hphase p))
  · have hsum := sum_map_set (io, phase') (fun c => c.2.uncounted) hi
    have hold := h.count
    simp only at hsum ⊢
    omega

/-- A step from and to a phase that holds no entry. -/
theorem Inv.pass {base : Nat} {s : OverlappingSyncs} (h : Inv base s) {i : Nat} {io : SyncIo}
    {phase phase' : SyncPhase} {r : ReplicationReplica} (hi : s.calls[i]? = some (io, phase))
    (hnotes : r.appliedEntryTimestamps = s.replica.appliedEntryTimestamps)
    (hindex : base ≤ r.lastAppliedIndex) (hcall : CallInv base s phase')
    (hfrom : phase.held = none) (hto : phase'.held = none)
    (hcount : r.lastAppliedIndex + phase'.uncounted
      ≤ s.replica.lastAppliedIndex + phase.uncounted) :
    Inv base { s with replica := r, calls := s.calls.set i (io, phase') } := by
  refine h.move hi hnotes hindex hcall (fun p hp => ?_) (fun p hp => ?_) hcount
  · rw [hp.held] at hfrom
    cases hfrom
  · rw [hto] at hp
    cases hp

/-- An entry is applied: it was not before, and nobody else holds it. -/
theorem Inv.applied {base : Nat} {s : OverlappingSyncs} (h : Inv base s) {i n : Nat} {io : SyncIo}
    {entry : WalEntry} {b : Batch} {r : ReplicationReplica}
    (hi : s.calls[i]? = some (io, .applying n entry b))
    (hnotes : r.appliedEntryTimestamps = s.replica.appliedEntryTimestamps)
    (hindex : r.lastAppliedIndex = s.replica.lastAppliedIndex) :
    Inv base { s with
      replica := r
      calls := s.calls.set i (io, .inserting n entry.timestamp b)
      applied := s.applied ++ [b.start + n] } := by
  have hlength : i < s.calls.length := (List.getElem?_eq_some_iff.mp hi).1
  obtain ⟨hbatch, hentry, hnew⟩ := h.calls _ (List.mem_of_getElem? hi)
  refine ⟨hindex ▸ h.index, ?_, h.apart.set hi fun p hp => .inl hp, ?_, ?_, ?_⟩
  · intro c hc
    obtain ⟨j, hj⟩ := List.getElem?_of_mem hc
    rw [List.getElem?_set] at hj
    -- no other call may be at the place that was applied
    by_cases hij : i = j
    · rw [if_pos hij, if_pos hlength] at hj
      cases hj
      exact ⟨hbatch, by simp only [hentry, Option.map_some]⟩
    · rw [if_neg hij] at hj
      have hold := h.calls c (List.mem_of_getElem? hj)
      have hother := h.apart i j _ c hi hj hij (b.start + n) rfl
      obtain ⟨io', phase⟩ := c
      cases phase with
      | applying m e b' =>
          refine ⟨hold.1, hold.2.1, fun hmem => ?_⟩
          rcases List.mem_append.mp hmem with hmem | hmem
          · exact hold.2.2 hmem
          · exact hother (congrArg some (List.mem_singleton.mp hmem))
      | _ => exact hold
  · intro p hp hbase
    rcases List.mem_append.mp hp with hp | hp
    · rcases h.noted p hp hbase with hnoted | hinserts
      · rw [← hnotes] at hnoted
        exact .inl hnoted
      · exact .inr ((inserts_set _ hi hinserts).resolve_left fun hself => hself)
    · exact .inr ⟨_, List.mem_set hlength _, (List.mem_singleton.mp hp).symm⟩
  · refine List.nodup_append.mpr ⟨h.once, List.nodup_singleton _, fun p hp q hq => ?_⟩
    rintro rfl
    rw [List.mem_singleton.mp hq] at hp
    exact hnew hp
  · have hsum : ((s.calls.set i (io, .inserting n entry.timestamp b)).map fun c => c.2.uncounted).sum
        + b.appliedCount = (s.calls.map fun c => c.2.uncounted).sum + (b.appliedCount + 1) :=
      sum_map_set _ (fun c => c.2.uncounted) hi
    have hold := h.count
    simp only [List.length_append, List.length_singleton, hindex]
    omega

/-- The time stamp of an applied entry is noted. -/
theorem Inv.inserted {base : Nat} {s : OverlappingSyncs} (h : Inv base s) {i n timestamp : Nat}
    {io : SyncIo} {b : Batch} (hi : s.calls[i]? = some (io, .inserting n timestamp b)) :
    Inv base { s with
      replica := s.replica.remember timestamp
      calls := s.calls.set i (io, .scanning b.countOne) } := by
  have hlength : i < s.calls.length := (List.getElem?_eq_some_iff.mp hi).1
  obtain ⟨hbatch, htimestamp⟩ := h.calls _ (List.mem_of_getElem? hi)
  refine ⟨h.index, ?_, h.apart.set hi (fun p hp => by cases hp), ?_, h.once, ?_⟩
  · intro c hc
    rcases List.mem_or_eq_of_mem_set hc with hold | rfl
    · exact h.calls c hold
    · exact ⟨hbatch.start, hbatch.rest⟩
  · intro p hp hbase
    rcases h.noted p hp hbase with ⟨e, he, hmem⟩ | hinserts
    · exact .inl ⟨e, he, Finset.mem_insert_of_mem hmem⟩
    · rcases inserts_set (io, .scanning b.countOne) hi hinserts with hself | hother
      · -- the entry of this very call
        have hplace : b.start + n = p := hself
        rw [hplace] at htimestamp
        obtain ⟨e, he, hstamp⟩ := Option.map_eq_some_iff.mp htimestamp
        exact .inl ⟨e, he, hstamp ▸ Finset.mem_insert_self _ _⟩
      · exact .inr hother
  · have hsum : ((s.calls.set i (io, .scanning b.countOne)).map fun c => c.2.uncounted).sum
        + (b.appliedCount + 1) = (s.calls.map fun c => c.2.uncounted).sum + (b.appliedCount + 1) :=
      sum_map_set _ (fun c => c.2.uncounted) hi
    have hold := h.count
    simp only [ReplicationReplica.remember]
    omega

/-! ## Whole runs -/

theorem getWalEntries_prefix (master : List WalEntry) (fromIndex limit : Nat) :
    getWalEntries master fromIndex limit <+: master.drop fromIndex := by
  unfold getWalEntries
  split
  · exact List.nil_prefix
  · exact List.take_prefix _ _

/-- The first entry of a batch, and the rest of it. -/
theorem BatchInv.next {base : Nat} {master : List WalEntry} {b : Batch} (h : BatchInv base master b)
    {entry : WalEntry} {rest : List WalEntry} (hrest : b.rest = entry :: rest) :
    master[b.start + b.read]? = some entry ∧ BatchInv base master (b.advance rest) := by
  obtain ⟨more, hmore⟩ := h.rest
  rw [hrest, List.cons_append] at hmore
  refine ⟨?_, h.start, more, ?_⟩
  · rw [← Nat.add_zero (b.start + b.read), ← List.getElem?_drop, ← hmore]
    rfl
  · show rest ++ more = master.drop (b.start + (b.read + 1))
    rw [← Nat.add_assoc, ← List.drop_drop, ← hmore]
    rfl

/-- A call goes on with its batch. -/
theorem Inv.scan {base : Nat} {s : OverlappingSyncs} (h : Inv base s) {rt : Runtime} {i : Nat}
    {io : SyncIo} {b : Batch} (hi : s.calls[i]? = some (io, .scanning b))
    (hapart : Apart rt s (.advance i)) : Inv base (s.step rt (.advance i)) := by
  have hbatch : BatchInv base s.master b := h.calls _ (List.mem_of_getElem? hi)
  have hfree := hapart io _ hi
  simp only [step, hi, SyncPhase.carriesOut, Option.toList_none, List.append_nil]
  simp only [SyncPhase.next] at hfree ⊢
  rcases hrest : b.rest with _ | ⟨entry, rest⟩
  · refine h.pass hi rfl (h.index.trans (Nat.le_add_right _ _)) trivial rfl rfl ?_
    simp only [SyncPhase.uncounted]
    omega
  · obtain ⟨hentry, hnext⟩ := hbatch.next hrest
    rw [hrest] at hfree
    simp only at hfree ⊢
    by_cases hseen : entry.timestamp ∈ b.batchSeen
    · rw [if_pos hseen]
      exact h.pass hi rfl h.index hnext rfl rfl (Nat.le_refl _)
    · by_cases hold : entry.timestamp ∈ s.replica.appliedEntryTimestamps
      · rw [if_neg hseen, if_pos hold]
        exact h.pass hi rfl h.index ⟨hnext.start, hnext.rest⟩ rfl rfl (Nat.le_refl _)
      · rw [if_neg hseen, if_neg hold] at hfree ⊢
        refine h.move hi rfl h.index ⟨⟨hnext.start, hnext.rest⟩, hentry, fun happlied => ?_⟩
          (fun p hp => hp.elim) hfree (Nat.le_refl _)
        -- an entry applied before is noted, or a call is about to note it
        have hmember : b.start + b.read ∈ s.applied := happlied
        have hbase : base ≤ b.start + b.read := hbatch.start.trans (Nat.le_add_right _ _)
        rcases h.noted _ hmember hbase with ⟨e, he, hmem⟩ | ⟨c, hc, hinserts⟩
        · rw [hentry] at he
          cases he
          exact hold hmem
        · exact hfree _ rfl c hc hinserts.held

/-- A call applies an entry, or the store refuses it. -/
theorem Inv.apply {base : Nat} {s : OverlappingSyncs} (h : Inv base s) {rt : Runtime} {i n : Nat}
    {io : SyncIo} {entry : WalEntry} {b : Batch} (hi : s.calls[i]? = some (io, .applying n entry b))
    (hapart : Apart rt s (.advance i)) : Inv base (s.step rt (.advance i)) := by
  have hdisk : io.disk n = none ∨ entry.operation.Refused s.replica.store := hapart io _ hi
  have hok := applyOperation_ok_iff rt (io.now n) s.replica.store entry.operation
  simp only [step, hi, SyncPhase.next, SyncPhase.carriesOut, ReplicationReplica.applyWalEntry]
  rcases hr : applyOperation rt (io.now n) s.replica.store entry.operation with ⟨e | _, store⟩
  · simp only [Option.toList_none, List.append_nil]
    refine h.move hi rfl h.index trivial (fun p hp => hp.elim) (fun p hp => by cases hp) ?_
    simp only [SyncPhase.uncounted]
    omega
  · rw [hr] at hok
    rw [hdisk.resolve_right (hok.mp rfl)]
    exact h.applied hi rfl rfl

theorem Inv.advance {base : Nat} {s : OverlappingSyncs} (h : Inv base s) {rt : Runtime} {i : Nat}
    (hapart : Apart rt s (.advance i)) : Inv base (s.step rt (.advance i)) := by
  rcases hi : s.calls[i]? with _ | ⟨io, phase⟩
  · simp only [step, hi]
    exact h
  · cases phase with
    | scanning b => exact h.scan hi hapart
    | applying n entry b => exact h.apply hi hapart
    | inserting n timestamp b =>
        simp only [step, hi, SyncPhase.next, SyncPhase.carriesOut, Option.toList_none, List.append_nil]
        exact h.inserted hi
    | reading =>
        simp only [step, hi, SyncPhase.next, SyncPhase.carriesOut, Option.toList_none, List.append_nil]
        exact h.pass hi rfl h.index h.index rfl rfl (Nat.le_refl _)
    | fetching lastApplied =>
        have hbase : base ≤ lastApplied := h.calls _ (List.mem_of_getElem? hi)
        have hprefix := getWalEntries_prefix s.master lastApplied 100
        simp only [step, hi, SyncPhase.next, SyncPhase.carriesOut, Option.toList_none, List.append_nil]
        split
        · exact h.pass hi rfl h.index trivial rfl rfl (Nat.le_refl _)
        · exact h.pass hi rfl h.index trivial rfl rfl (Nat.le_refl _)
        · split
          · exact h.pass hi rfl h.index trivial rfl rfl (Nat.le_refl _)
          · next entry entries hanswer =>
              rw [hanswer] at hprefix
              exact h.pass hi rfl h.index ⟨hbase, hprefix⟩ rfl rfl (Nat.le_refl _)
    | reporting count total =>
        simp only [step, hi, SyncPhase.next, SyncPhase.carriesOut, Option.toList_none, List.append_nil]
        exact h.pass hi rfl h.index trivial rfl rfl (Nat.le_refl _)
    | done result =>
        simp only [step, hi, SyncPhase.next, SyncPhase.carriesOut, Option.toList_none, List.append_nil]
        exact h.pass hi rfl h.index trivial rfl rfl (Nat.le_refl _)

theorem Inv.step {base : Nat} {s : OverlappingSyncs} (h : Inv base s) {rt : Runtime} {a : Action}
    (hapart : Apart rt s a) : Inv base (s.step rt a) := by
  cases a with
  | advance i => exact h.advance hapart
  | append now operation =>
      refine ⟨h.index, fun c hc => (h.calls c hc).append _, h.apart, fun p hp hbase => ?_, h.once,
        h.count⟩
      refine (h.noted p hp hbase).imp_left ?_
      rintro ⟨e, he, hmem⟩
      refine ⟨e, ?_, hmem⟩
      show (s.master ++ _)[p]? = some e
      rw [List.getElem?_append_left (List.getElem?_eq_some_iff.mp he).1]
      exact he
  | call io =>
      refine ⟨h.index, ?_, ?_, ?_, h.once, ?_⟩
      · intro c hc
        rcases List.mem_append.mp hc with hc | hc
        · exact h.calls c hc
        · rw [List.mem_singleton.mp hc]
          trivial
      · intro j k c d hj hk hjk p hp hq
        have hold : ∀ {l : Nat} {e : SyncIo × SyncPhase}, (s.calls ++ [(io, .reading)])[l]? = some e →
            e.2.held = some p → s.calls[l]? = some e := by
          intro l e hl hheld
          by_cases hlt : l < s.calls.length
          · rwa [List.getElem?_append_left hlt] at hl
          · rw [List.getElem?_append_right (Nat.not_lt.mp hlt)] at hl
            rw [List.mem_singleton.mp (List.mem_of_getElem? hl)] at hheld
            cases hheld
        exact h.apart j k c d (hold hj hp) (hold hk hq) hjk p hp hq
      · intro p hp hbase
        refine (h.noted p hp hbase).imp_right ?_
        rintro ⟨c, hc, hinserts⟩
        exact ⟨c, List.mem_append_left _ hc, hinserts⟩
      · show s.replica.lastAppliedIndex
          + ((s.calls ++ [(io, SyncPhase.reading)]).map fun c => c.2.uncounted).sum ≤ s.applied.length
        rw [List.map_append, List.sum_append]
        exact h.count

theorem inv_start (store : KvStore) (master : List WalEntry) (n : Nat) :
    Inv (master.take n).length (start store master n) where
  index := Nat.le_refl _
  calls c hc := by cases hc
  apart i j c d hc := by cases hc
  noted p hp hbase := absurd (List.mem_range.mp hp) (Nat.not_lt.mpr hbase)
  once := List.nodup_range
  count := by
    show (master.take n).length + 0 ≤ (List.range (master.take n).length).length
    rw [List.length_range]
    exact Nat.le_refl _

/-- Overlapping syncs are safe: in every run of any number of calls, with the master's log growing in
between, in which no call finds an entry new that another one holds and every entry carried out is
appended, no entry is applied twice and the index counts no more than was applied. -/
theorem overlapping_syncs_safe (rt : Runtime) (store : KvStore) (master : List WalEntry) (n : Nat)
    (actions : List Action) (h : Guarded (step rt) (Apart rt) (start store master n) actions) :
    Always (step rt) Safe (start store master n) actions := by
  have hinv := h.always (fun s a (hs : Inv (master.take n).length s) ha => hs.step ha)
    (inv_start store master n)
  exact hinv.mono fun s hs => hs.safe

/-- The replica has fetched one entry twice, in two calls that take turns. -/
def takeTurns : List Action :=
  [.call {}, .call {}, .advance 0, .advance 1, .advance 0, .advance 1]

/-- The second call looks at the entry after the first has noted it. -/
theorem overlapping_syncs_safe_noted :
    Always (step .strings) Safe (start (.withConfig {}) [WalEntry.new 5 (.lPush "k" ["v"])] 0)
      (takeTurns ++ [.advance 0, .advance 0, .advance 0, .advance 1, .advance 0, .advance 1]) := by
  refine overlapping_syncs_safe .strings (.withConfig {}) _ 0 _ ⟨trivial, trivial, ?_, ?_, ?_, ?_,
    ?_, ?_, ?_, ?_, ?_, ?_, trivial⟩
  all_goals
    intro io phase hi
    cases hi
  · trivial
  · trivial
  · trivial
  · trivial
  · intro p _ c hc
    have hnone : c.2.held = none := by
      revert c
      decide
    rw [hnone]
    exact nofun
  · exact .inl rfl
  · trivial
  · intro p hp
    cases hp
  · intro p hp
    cases hp
  · intro p hp
    cases hp

/-- Both calls look at the entry before either has noted it: it is pushed twice, and the index is
past the end of the master's log. -/
theorem entry_applied_twice :
    ¬ Always (step .strings) Safe (start (.withConfig {}) [WalEntry.new 5 (.lPush "k" ["v"])] 0)
      (takeTurns ++ [.advance 0, .advance 1, .advance 0, .advance 1]) := by
  intro h
  exact absurd h.last.once (by decide)

end OverlappingSyncs

end Daikon
