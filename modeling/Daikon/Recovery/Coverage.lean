/-
# Daikon.Recovery.Coverage -- whether the log names every key that a handler changes

A handler is a list of store calls, some of them with an entry that is appended for the call. An entry
names all the keys that its call can change, so what can be missing from the log is what the calls
without an entry change. Those are the calls of the three HyperLogLog handlers, `hset` and `hdel` of a
script, the increment of `hash_hincrbyfloat` where the append that comes after it fails, and the entry at
which the sync of a replica stops: refused half way (an MSET), or carried out and then not appended.

The list of steps is the abstract view of a request here (`HttpCall.steps`): `steps_of` connects it to the
handlers, for every request but `exec`, `cleanup` and the recoveries, and for the sync of a replica. A
step changes a key at its turn if the call, made on the store as it is then and with eviction switched
off, leaves another entry there. What an eviction takes is not a change that a log entry has to name.

Two readings of the property follow. `EveryWriteLogged` is about each call: the keys that it changes are
named by the time the handler answers. `EveryChangeLogged` compares the store after the request with the
store before it and is weaker, for a script can undo a change of its own. `every_write_logged_iff` shows
that the first holds exactly if each call without an entry finds nothing to change (`StoreCall.Keeps`, a
condition on the entries that the call finds) but at keys that another entry of the request names, and
that the second then holds as well. `unlogged_changes` breaks even the second.
-/
import Daikon.Recovery.Restart
import Daikon.Replica.Sync
import Daikon.Store.Unchanged

namespace Daikon

open Lib.KeyedLog (run)

/-- A store call of a handler, with the entry that is appended for it, if there is one. -/
structure HandlerStep where
  logged : Option WalEntry
  now : Nat
  call : StoreCall

namespace HandlerStep

variable (rt : Runtime)

/-- What the step does to the store. -/
def run (s : KvStore) (step : HandlerStep) : KvStore := step.call.run rt s step.now

/-- The store after some steps. -/
def runAll (s : KvStore) (steps : List HandlerStep) : KvStore := steps.foldl (run rt) s

/-- The call itself, not an eviction that follows it, changes the entry of the key. -/
def Changes (s : KvStore) (k : String) (step : HandlerStep) : Prop :=
  (step.run rt s.uncapped).contents k ≠ s.contents k

/-- Some step changes the entry of the key at its turn. -/
def SomeChanges (k : String) : List HandlerStep → KvStore → Prop
  | [], _ => False
  | step :: steps, s => step.Changes rt s k ∨ SomeChanges k steps (step.run rt s)

/-- Every step without an entry finds, at its turn, nothing to change at the key. -/
def UnloggedKeep (k : String) : List HandlerStep → KvStore → Prop
  | [], _ => True
  | step :: steps, s =>
      (step.logged = none → step.call.Keeps rt s step.now k) ∧ UnloggedKeep k steps (step.run rt s)

end HandlerStep

/-- A key that no step changes has its old entry, or has been evicted. -/
theorem HandlerStep.unchanged (rt : Runtime) (k : String) (steps : List HandlerStep) :
    ∀ s : KvStore, ¬ SomeChanges rt k steps s →
      (runAll rt s steps).contents k = s.contents k ∨ (runAll rt s steps).contents k = none := by
  induction steps with
  | nil => intro s _; exact .inl rfl
  | cons step steps ih =>
      intro s h
      rw [SomeChanges, not_or, Changes, not_not] at h
      obtain ⟨hfirst, hrest⟩ := h
      rcases ih (step.run rt s) hrest with hsame | hnone
      · rcases step.call.run_within rt s step.now k with hkept | hevicted
        · exact .inl (hsame.trans (hkept.trans hfirst))
        · exact .inr (hsame.trans hevicted)
      · exact .inr hnone

/-! ## The steps of a handler -/

/-- An effect is a step of a handler. -/
def Effect.step (e : Effect) : Option HandlerStep :=
  e.call.map fun c => ⟨e.logged, c.1, .write c.2⟩

namespace Server

/-- The entry that `hash_hincrbyfloat` appends after its call. -/
def hincrbyfloatEntry (rt : Runtime) (srv : Server) (io : Io) (key field : String) (amount : Float) :
    Option WalEntry :=
  match (srv.store.hincrbyfloat rt key field amount).1, io.disk 0 with
  | .ok value, none =>
      some (WalEntry.new (io.loggedAt 0) (.hSet key ((∅ : Fields).insert field (rt.f64ToString value))))
  | _, _ => none

/-- The steps of a request that has the API key. -/
def dispatchSteps (rt : Runtime) (srv : Server) (io : Io) : Request → List HandlerStep
  | .hllPfadd key values => [⟨none, io.now 0, .write (.pfadd key values)⟩]
  | .hllPfreserve key precision => [⟨none, io.now 0, .pfreserve key precision⟩]
  | .hllPfmerge destination sources => [⟨none, io.now 0, .write (.pfmerge destination sources)⟩]
  | .hashHincrbyfloat key field amount =>
      [⟨srv.hincrbyfloatEntry rt io key field amount, io.now 0, .write (.hincrbyfloat key field amount)⟩]
  | req => (dispatchEffects rt srv io req).filterMap Effect.step

/-- What a request does to the store, call by call. Without the API key it does nothing. -/
def steps (rt : Runtime) (srv : Server) (io : Io) (req : Request) : List HandlerStep :=
  match requireApiKey io.headers srv.runtime with
  | some _ => []
  | none => dispatchSteps rt srv io req

end Server

/-- The steps of a sync: each entry is carried out and then appended, up to the one that fails. -/
def ReplicationReplica.steps (rt : Runtime) (io : SyncIo) :
    List (WalEntry × Nat) → ReplicationReplica → List HandlerStep
  | [], _ => []
  | (entry, n) :: entries, r =>
      match r.applyWalEntry rt (io.now n) (io.disk n) entry with
      -- refused, or carried out and not appended: the sync stops here
      | (.error _, _) => [⟨none, io.now n, .write entry.operation.raw⟩]
      | (.ok (), r) =>
          ⟨some entry, io.now n, .write entry.operation.raw⟩ ::
            ReplicationReplica.steps rt io entries (r.remember entry.timestamp)

/-- An HTTP request to a server, or to a replica to sync with its master. -/
inductive HttpCall where
  | request (srv : Server) (io : Io) (req : Request)
  | replicationSync (replica : ReplicationReplica) (io : SyncIo) (master : List WalEntry)

/-- `exec`, `cleanup` and the recoveries are left out. -/
def Request.Covered : Request → Prop
  | exec | cleanupExpired | pitrRecoverToTimestamp _ _ | pitrRecoverLatestSnapshot _ => False
  | _ => True

namespace HttpCall

/-- The calls that the results are about. A sync always is one. -/
def Covered : HttpCall → Prop
  | request _ _ req => req.Covered
  | replicationSync _ _ _ => True

/-- Store and log as the request comes in. -/
def before : HttpCall → KvStore × List WalEntry
  | request srv _ _ => (srv.store, srv.wal)
  | replicationSync replica _ _ => (replica.store, replica.wal)

/-- Store and log as the handler answers. -/
def after (rt : Runtime) : HttpCall → KvStore × List WalEntry
  | request srv io req => ((srv.handle rt io req).2.store, (srv.handle rt io req).2.wal)
  | replicationSync replica io master =>
      ((replica.sync rt io master).2.store, (replica.sync rt io master).2.wal)

/-- The store calls on the way. -/
def steps (rt : Runtime) : HttpCall → List HandlerStep
  | request srv io req => srv.steps rt io req
  | replicationSync replica io master =>
      if io.heartbeat = none ∧ io.fetch = none then
        ReplicationReplica.steps rt io (replica.pending master) replica
      else []

/-- One of the entries appended by the end of the handler names the key. -/
def Names (rt : Runtime) (call : HttpCall) (k : String) : Prop :=
  ∃ entry ∈ (call.after rt).2.drop call.before.2.length, k ∈ entry.operation.keys

/-- A step is appended for under an entry that names the key. -/
def Logs (rt : Runtime) (call : HttpCall) (k : String) : Prop :=
  ∃ step ∈ call.steps rt, ∃ entry, step.logged = some entry ∧ k ∈ entry.operation.keys

/-- A step changes the entry of the key at its turn. -/
def SomeChanges (rt : Runtime) (call : HttpCall) (k : String) : Prop :=
  HandlerStep.SomeChanges rt k (call.steps rt) call.before.1

/-- Every key that a call changes at its turn is named by an appended entry. -/
def EveryWriteLogged (rt : Runtime) (call : HttpCall) : Prop :=
  ∀ k, call.SomeChanges rt k → call.Names rt k

/-- Every key is as it was, or named by an appended entry, or it has been evicted and nothing else. -/
def EveryChangeLogged (rt : Runtime) (call : HttpCall) : Prop :=
  ∀ k, (call.after rt).1.contents k = call.before.1.contents k ∨ call.Names rt k ∨
    ((call.after rt).1.contents k = none ∧ ¬ call.SomeChanges rt k)

/-- The steps without an entry find nothing to change but at keys that the entry of another step names. -/
def UnloggedKeep (rt : Runtime) (call : HttpCall) : Prop :=
  ∀ k, call.Logs rt k ∨ HandlerStep.UnloggedKeep rt k (call.steps rt) call.before.1

end HttpCall

/-! ## The steps are what the handler does -/

/-- The steps leave the entries that the handler leaves, and are logged as it logs them. -/
structure StepsOf (rt : Runtime) (before after : KvStore × List WalEntry) (steps : List HandlerStep) :
    Prop where
  contents : after.1.contents = (HandlerStep.runAll rt before.1 steps).contents
  wal : after.2 = before.2 ++ steps.filterMap HandlerStep.logged
  /-- An entry names the keys of the call that it is appended for. -/
  keys : ∀ step ∈ steps, ∀ entry, step.logged = some entry →
    ∃ w, step.call = .write w ∧ w.keys = entry.operation.keys

theorem StepsOf.nothing (rt : Runtime) {before after : KvStore × List WalEntry}
    (hstore : after.1.contents = before.1.contents) (hwal : after.2 = before.2) :
    StepsOf rt before after [] where
  contents := hstore
  wal := by rw [hwal]; simp
  keys := fun step hstep => by cases hstep

/-- One call without an entry. -/
theorem StepsOf.unlogged {rt : Runtime} {before after : KvStore × List WalEntry} {now : Nat}
    {call : StoreCall} (hstore : after.1 = HandlerStep.run rt before.1 ⟨none, now, call⟩)
    (hwal : after.2 = before.2) : StepsOf rt before after [⟨none, now, call⟩] where
  contents := congrArg _ hstore
  wal := by rw [hwal]; simp
  keys := fun step hstep entry hentry => by
    rw [List.mem_singleton.mp hstep] at hentry
    cases hentry

theorem Effect.runAll_step (rt : Runtime) (effects : List Effect) :
    ∀ s : KvStore, HandlerStep.runAll rt s (effects.filterMap Effect.step)
      = effects.foldl (Effect.onStore rt) s := by
  induction effects with
  | nil => intro s; rfl
  | cons e effects ih =>
      intro s
      obtain ⟨logged, call⟩ := e
      cases call with
      | none => exact ih s
      | some c => exact ih _

theorem Effect.logged_step {effects : List Effect} (h : ∀ e ∈ effects, Server.CallsKeyed e) :
    (effects.filterMap Effect.step).filterMap HandlerStep.logged = effects.filterMap Effect.logged := by
  rw [List.filterMap_filterMap]
  refine List.filterMap_congr fun e he => ?_
  obtain ⟨c, hcall, -⟩ := h e he
  simp only [Effect.step, hcall]
  rfl

namespace Server

theorem write_steps (rt : Runtime) (srv : Server) (io : Io) {req : Request} (h : req.IsWrite)
    (hkey : requireApiKey io.headers srv.runtime = none) :
    StepsOf rt (srv.store, srv.wal)
      ((srv.dispatch rt io req).2.store, (srv.dispatch rt io req).2.wal)
      ((dispatchEffects rt srv io req).filterMap Effect.step) := by
  have heffects : srv.effects rt io req = dispatchEffects rt srv io req := by
    simp only [effects, hkey]
  have hkeyed := effects_keyed rt srv io req
  have hof := effects_of rt srv io req
  rw [heffects] at hkeyed hof
  obtain ⟨hwal, hsettled⟩ := dispatch_performs rt srv io h
  refine ⟨?_, ?_, ?_⟩
  · rw [Effect.runAll_step]
    exact hsettled.contents
  · rw [Effect.logged_step hkeyed]
    exact hwal
  · intro step hstep entry hentry
    obtain ⟨e, he, hmade⟩ := List.mem_filterMap.mp hstep
    cases hof e he with
    | logged hcall =>
        cases hmade
        cases hentry
        exact ⟨_, rfl, hcall.matched.keys⟩
    | hset now key fields => cases hmade; cases hentry
    | hdel now key fields => cases hmade; cases hentry

theorem hincrbyfloat_steps (rt : Runtime) (srv : Server) (io : Io) (key field : String)
    (amount : Float) :
    StepsOf rt (srv.store, srv.wal)
      ((srv.hashHincrbyfloat rt io key field amount).2.store,
        (srv.hashHincrbyfloat rt io key field amount).2.wal)
      [⟨srv.hincrbyfloatEntry rt io key field amount, io.now 0,
        .write (.hincrbyfloat key field amount)⟩] := by
  refine ⟨congrArg _ (hashHincrbyfloat_store rt srv io key field amount), ?_, ?_⟩
  · unfold hashHincrbyfloat append hincrbyfloatEntry
    rcases srv.store.hincrbyfloat rt key field amount with ⟨e | value, store⟩
    · simp
    · cases io.disk 0 <;> simp
  · intro step hstep entry hentry
    rw [List.mem_singleton.mp hstep] at hentry ⊢
    refine ⟨_, rfl, ?_⟩
    unfold hincrbyfloatEntry at hentry
    split at hentry
    · cases hentry
      rfl
    · cases hentry

/-- The handlers in scope do what their steps say. -/
theorem dispatch_steps (rt : Runtime) (srv : Server) (io : Io) {req : Request} (h : req.Covered)
    (hkey : requireApiKey io.headers srv.runtime = none) :
    StepsOf rt (srv.store, srv.wal)
      ((srv.dispatch rt io req).2.store, (srv.dispatch rt io req).2.wal)
      (srv.dispatchSteps rt io req) := by
  cases req with
  | hllPfadd key values =>
      refine StepsOf.unlogged ?_ rfl
      exact ofResult_snd _ _
  | hllPfreserve key precision =>
      refine StepsOf.unlogged ?_ rfl
      exact ofResult_snd _ _
  | hllPfmerge destination sources =>
      refine StepsOf.unlogged ?_ rfl
      exact ofResult_snd _ _
  | hashHincrbyfloat key field amount => exact hincrbyfloat_steps rt srv io key field amount
  | multi =>
      refine StepsOf.nothing rt ?_ ?_ <;> simp only [dispatch, multi, transactionAnswer_snd]
      unfold KvStore.multi
      split <;> rfl
  | discard =>
      refine StepsOf.nothing rt ?_ ?_ <;> simp only [dispatch, discard, transactionAnswer_snd]
      unfold KvStore.discard
      split <;> rfl
  | setKeyspaceConfig enabled => exact StepsOf.nothing rt rfl rfl
  | cleanupExpired | exec | pitrRecoverToTimestamp _ _ | pitrRecoverLatestSnapshot _ => exact h.elim
  | _ => exact write_steps rt srv io trivial hkey

end Server

namespace ReplicationReplica

theorem applyEntries_steps (rt : Runtime) (io : SyncIo) (entries : List (WalEntry × Nat)) :
    ∀ r : ReplicationReplica, StepsOf rt (r.store, r.wal)
      ((applyEntries rt io entries r).2.store, (applyEntries rt io entries r).2.wal)
      (steps rt io entries r) := by
  induction entries with
  | nil => intro r; exact StepsOf.nothing rt rfl rfl
  | cons e entries ih =>
      intro r
      obtain ⟨entry, n⟩ := e
      have hstore := applyWalEntry_store rt (io.now n) (io.disk n) r entry
      have hlog := applyWalEntry_wal rt (io.now n) (io.disk n) r entry
      rw [applyEntries, steps]
      rcases hr : r.applyWalEntry rt (io.now n) (io.disk n) entry with ⟨e | _, r'⟩ <;>
        rw [hr] at hstore hlog
      · exact StepsOf.unlogged hstore hlog
      · obtain ⟨hcontents, hwal, hkeys⟩ := ih (r'.remember entry.timestamp)
        refine ⟨?_, ?_, ?_⟩
        · rw [show (r'.remember entry.timestamp).store = _ from hstore] at hcontents
          exact hcontents
        · rw [show (r'.remember entry.timestamp).wal = _ from hlog,
            List.append_assoc] at hwal
          exact hwal
        · intro step hstep logged hlogged
          rcases List.mem_cons.mp hstep with rfl | hstep
          · cases hlogged
            exact ⟨_, rfl, entry.operation.raw_keys⟩
          · exact hkeys step hstep logged hlogged

end ReplicationReplica

/-- What a handler in scope does is what its steps do. -/
theorem HttpCall.steps_of (rt : Runtime) (call : HttpCall) (h : call.Covered) :
    StepsOf rt call.before (call.after rt) (call.steps rt) := by
  cases call with
  | request srv io req =>
      simp only [steps, after, before, Server.steps, Server.handle]
      cases hkey : requireApiKey io.headers srv.runtime with
      | some refusal => exact StepsOf.nothing rt rfl rfl
      | none => exact Server.dispatch_steps rt srv io h hkey
  | replicationSync replica io master =>
      simp only [steps, after, before]
      by_cases hreach : io.heartbeat = none ∧ io.fetch = none
      · have hsync := ReplicationReplica.applyEntries_steps rt io (replica.pending master) replica
        rw [if_pos hreach, ReplicationReplica.sync_of_reachable hreach.1 hreach.2]
        rcases hr : ReplicationReplica.applyEntries rt io (replica.pending master) replica with
          ⟨_ | _, r'⟩ <;> rw [hr] at hsync <;> exact hsync
      · rw [if_neg hreach, (ReplicationReplica.sync_of_unreachable rt replica master hreach).2]
        exact StepsOf.nothing rt rfl rfl

/-! ## The theorem -/

namespace HandlerStep

variable {rt : Runtime} {k : String}

theorem changes_iff {s : KvStore} {step : HandlerStep} :
    step.Changes rt s k ↔ ¬ step.call.Keeps rt s step.now k := not_congr step.call.keeps_iff

/-- Where nothing changes the key, no step without an entry does. -/
theorem unloggedKeep_of_not_changes {steps : List HandlerStep} :
    ∀ {s : KvStore}, ¬ SomeChanges rt k steps s → UnloggedKeep rt k steps s := by
  induction steps with
  | nil => intro s _; trivial
  | cons step steps ih =>
      intro s h
      rw [SomeChanges, not_or, changes_iff, not_not] at h
      exact ⟨fun _ => h.1, ih h.2⟩

/-- A step with an entry changes only keys that the entry names. -/
theorem not_changes_of_not_named {s : KvStore} {step : HandlerStep} {entry : WalEntry}
    (hkeys : ∃ w, step.call = .write w ∧ w.keys = entry.operation.keys)
    (hk : k ∉ entry.operation.keys) : ¬ step.Changes rt s k := by
  obtain ⟨w, hcall, hnames⟩ := hkeys
  rw [Changes, not_not, run, hcall]
  exact KvStore.write_changes_keys rt s step.now (hnames ▸ hk)

/-- A key that no entry names is changed by none of the steps, if those without an entry keep it. -/
theorem not_changes {steps : List HandlerStep} :
    ∀ {s : KvStore}, (∀ step ∈ steps, ∀ entry, step.logged = some entry →
        ∃ w, step.call = .write w ∧ w.keys = entry.operation.keys) →
      (∀ step ∈ steps, ∀ entry, step.logged = some entry → k ∉ entry.operation.keys) →
      UnloggedKeep rt k steps s → ¬ SomeChanges rt k steps s := by
  induction steps with
  | nil => intro s _ _ _ h; exact h
  | cons step steps ih =>
      intro s hkeys hnone hkeep h
      rcases h with hchanges | hrest
      · cases hlogged : step.logged with
        | none => exact changes_iff.mp hchanges (hkeep.1 hlogged)
        | some entry =>
            exact not_changes_of_not_named (hkeys step List.mem_cons_self entry hlogged)
              (hnone step List.mem_cons_self entry hlogged) hchanges
      · exact ih (fun d hd => hkeys d (List.mem_cons_of_mem _ hd))
          (fun d hd => hnone d (List.mem_cons_of_mem _ hd)) hkeep.2 hrest

end HandlerStep

namespace HttpCall

variable {rt : Runtime} {call : HttpCall}

/-- The entries of the steps are those that the handler has appended when it answers. -/
theorem names_iff (h : call.Covered) {k : String} : call.Names rt k ↔ call.Logs rt k := by
  rw [Names, (call.steps_of rt h).wal, List.drop_left]
  constructor
  · rintro ⟨entry, hentry, hk⟩
    obtain ⟨step, hstep, hlogged⟩ := List.mem_filterMap.mp hentry
    exact ⟨step, hstep, entry, hlogged, hk⟩
  · rintro ⟨step, hstep, entry, hlogged, hk⟩
    exact ⟨entry, List.mem_filterMap.mpr ⟨step, hstep, hlogged⟩, hk⟩

/-- If every write is logged, so is what has changed in the end. -/
theorem EveryWriteLogged.everyChangeLogged (h : call.Covered) (hlogged : call.EveryWriteLogged rt) :
    call.EveryChangeLogged rt := by
  intro k
  have hcontents := (call.steps_of rt h).contents
  by_cases hchanges : call.SomeChanges rt k
  · exact .inr (.inl (hlogged k hchanges))
  · rcases HandlerStep.unchanged rt k (call.steps rt) call.before.1 hchanges with hsame | hnone
    · exact .inl (by rw [hcontents]; exact hsame)
    · exact .inr (.inr ⟨by rw [hcontents]; exact hnone, hchanges⟩)

end HttpCall

/-- For every handler in scope, every request and every state: each key that a store call changes at its
turn is named by an appended entry, exactly if the calls without an entry find nothing to change but at
keys that another entry of the request names. Then each key that differs in the end is named as well. -/
theorem every_write_logged_iff (rt : Runtime) (call : HttpCall) (h : call.Covered) :
    (call.EveryWriteLogged rt ↔ call.UnloggedKeep rt) ∧
      (call.EveryWriteLogged rt → call.EveryChangeLogged rt) := by
  refine ⟨⟨fun hlogged k => ?_, fun hkeep k hchanges => ?_⟩, fun hlogged => hlogged.everyChangeLogged h⟩
  · by_cases hchanges : call.SomeChanges rt k
    · exact .inl ((HttpCall.names_iff h).mp (hlogged k hchanges))
    · exact .inr (HandlerStep.unloggedKeep_of_not_changes hchanges)
  · by_contra hnames
    rw [HttpCall.names_iff h] at hnames
    refine HandlerStep.not_changes (call.steps_of rt h).keys (fun step hstep entry hlogged hk => ?_)
      ((hkeep k).resolve_left hnames) hchanges
    exact hnames ⟨step, hstep, entry, hlogged, hk⟩

/-- A server that holds the hash `k` with the field `f`. -/
def hashServer : Server :=
  ((Server.fresh {} none false).handle .strings (Io.healthy 5)
    (.hashHset "k" ((∅ : Fields).insert "f" "v"))).2

/-- A script that sets the field of `k` to what it is, and makes a hash at `j` after deleting it. -/
def quietScript : LuaScript :=
  { text := "hset('k', 'f', 'v') delete('j') hset('j', 'f', 'v')"
    calls := [.hset "k" "f" "v", .delete "j", .hset "j" "f" "v"]
    outcome := .ok "true" }

/-- The one change that such a script makes is at a key which the entry of the `delete` names. -/
theorem every_write_logged_iff_script :
    (HttpCall.request hashServer (Io.healthy 6) (.luaExec quietScript)).EveryWriteLogged .strings := by
  have hvalues : hashServer.store.values "k" = some (.hash ((∅ : Fields).insert "f" "v")) := by
    decide +kernel
  have hsteps : (HttpCall.request hashServer (Io.healthy 6) (.luaExec quietScript)).steps .strings
      = [⟨none, 6, .write (.hset "k" ((∅ : Fields).insert "f" "v"))⟩,
        ⟨some (WalEntry.new ((Io.healthy 6).loggedAt 1) (.delete "j")), 6, .write (.delete "j")⟩,
        ⟨none, 6, .write (.hset "j" ((∅ : Fields).insert "f" "v"))⟩] := rfl
  refine (every_write_logged_iff .strings _ ?_).1.mpr fun k => ?_
  · trivial
  · by_cases hk : k = "j"
    · refine .inl ?_
      rw [HttpCall.Logs, hsteps]
      exact ⟨_, .tail _ (.head _), _, rfl, hk ▸ List.mem_singleton.mpr rfl⟩
    · refine .inr ?_
      rw [hsteps]
      refine ⟨fun _ _ _ => ⟨fun hnone => ?_, fun map hmap => ?_⟩, nofun, fun _ hin => ?_, trivial⟩
      · have hsome : hashServer.store.contents "k" ≠ none := fun h => by
          rw [KvStore.values, h] at hvalues
          cases hvalues
        exact hsome hnone
      · cases hmap.symm.trans hvalues
        exact fun _ _ hfield => hfield
      · exact absurd (List.mem_singleton.mp hin) hk

/-- A script that sets a field of the hash `k`. -/
def hsetScript : LuaScript :=
  { text := "hset('k', 'f', 'v')", calls := [.hset "k" "f" "v"], outcome := .ok "true" }

/-- The script leaves a hash in the store and nothing in the log; so does PFADD with a sketch. -/
theorem unlogged_changes :
    ¬ (HttpCall.request (.fresh {} none false) (Io.healthy 5) (.luaExec hsetScript)).EveryChangeLogged
        .strings ∧
      ¬ (HttpCall.request (.fresh {} none false) (Io.healthy 5) (.hllPfadd "k" ["a"])).EveryChangeLogged
        .strings := by
  constructor
  · intro h
    have hk : ((Server.fresh {} none false).handle .strings (Io.healthy 5)
        (.luaExec hsetScript)).2.store.contents "k" ≠ none := by decide
    rcases h "k" with hsame | ⟨entry, hentry, -⟩ | ⟨hnone, -⟩
    · exact hk hsame
    · cases hentry
    · exact hk hnone
  · intro h
    have hk : ((Server.fresh {} none false).handle .strings (Io.healthy 5)
        (.hllPfadd "k" ["a"])).2.store.contents "k" ≠ none := by
      rw [Option.ne_none_iff_isSome]
      decide +kernel
    rcases h "k" with hsame | ⟨entry, hentry, -⟩ | ⟨hnone, -⟩
    · exact hk hsame
    · cases hentry
    · exact hk hnone

end Daikon
