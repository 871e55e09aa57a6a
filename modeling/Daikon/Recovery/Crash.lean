/-
# Daikon.Recovery.Crash -- replaying the log after a crash

The live store and the replay of its log move in step: every acknowledged single command logs one
operation whose replay makes the very call the handler made. The clock drops out, because these
commands set no expiry, and so do the events. `getset_value` and `mset_values` are the exception:
they log the bare text of a value, which replay expects to be JSON and drops when it is not.

A single command is a request that one handler answers with one store call and one entry: a SET without a
time to live, DEL, the counters, APPEND, GETSET, MSET, and the list and hash writes. A crash is the loss of
everything but the log, so what is asked after every request is that a replay of the log on an empty store
gives the values of the live one, whatever clocks the replay reads (`Recovers`).

`Echoed` is what the entry of a command and its call have to do with each other, one lemma per family of
handlers; `inStep_serve` is the step, and `replay_wal_recovers` the run. Evictions need no care: both stores
make the same calls from the same state and so evict the same keys. A condition is asked of the requests
alone (`LoggedDecodes`), and it is needed: `getset_not_recovered` is an acknowledged GETSET that the next
start drops.
-/
import Daikon.Api.Effects
import Daikon.Lib.Run
import Daikon.Store.Text

namespace Daikon

open Lib.Run (Always Guarded)

/-- The single-command write requests; `set_value` without a time to live. -/
def Request.SingleCommand : Request → Prop
  | setValue _ _ none | deleteValue _ | incrValue _ | decrValue _ | incrbyValue _ _
  | appendValue _ _ | getsetValue _ _ | msetValues _ | listLpush _ _ | listRpush _ _ | listLpop _
  | listRpop _ | hashHset _ _ | hashHdel _ _ | hashHincrby _ _ _ | hashHincrbyfloat _ _ _ => True
  | _ => False

theorem Request.SingleCommand.isWrite {req : Request} (h : req.SingleCommand) : req.IsWrite := by
  cases req <;> trivial

/-- The texts that GETSET and MSET log bare decode to the values they stand for. -/
def Request.LoggedDecodes (rt : Runtime) : Request → Prop
  | getsetValue _ value => rt.valueFromJson value = some (.str value)
  | msetValues pairs => ∀ p ∈ pairs, ∃ v, rt.valueFromJson p.2 = some v ∧ v.toString rt = p.2
  | _ => True

namespace Server

/-- The request is answered with success. -/
def Acknowledged (rt : Runtime) (srv : Server) (r : Io × Request) : Prop :=
  (srv.handle rt r.1 r.2).1.status = 200

/-- Replaying the log on an empty store gives the values that the live store holds. -/
def Recovers (rt : Runtime) (cfg : StoreConfig) (srv : Server) : Prop :=
  ∀ clock, ∃ r, replayWal rt (stamped clock srv.wal) (KvStore.withConfig cfg) = .ok r ∧
    r.values = srv.store.values

/-! ## The effect of an acknowledged single command -/

theorem requireApiKey_status {headers : Headers} {runtime : Option ApiRuntimeConfig}
    {refusal : Response} (h : requireApiKey headers runtime = some refusal) : refusal.status = 401 := by
  unfold requireApiKey at h
  split at h
  · cases h
  · dsimp only at h
    split at h <;> simp at h
    all_goals rw [← h.2]

theorem Acknowledged.dispatched {rt : Runtime} {srv : Server} {io : Io} {req : Request}
    (h : srv.Acknowledged rt (io, req)) :
    requireApiKey io.headers srv.runtime = none ∧ (srv.dispatch rt io req).1.status = 200 := by
  unfold Acknowledged at h
  cases hkey : requireApiKey io.headers srv.runtime with
  | some refusal =>
      rw [handle_unauthorized hkey] at h
      exact absurd (h.symm.trans (requireApiKey_status hkey)) (by decide)
  | none =>
      simp only [handle, hkey] at h
      exact ⟨rfl, h⟩

theorem Acknowledged.logged {rt : Runtime} {srv : Server} {io : Io} {req : Request}
    {op : WalOperation} {w : Write} (h : srv.Acknowledged rt (io, req))
    (hop : req.loggedWrite rt = some (op, w)) :
    srv.effects rt io req = [⟨some (WalEntry.new (io.loggedAt 0) op), some (io.now 0, w)⟩] := by
  obtain ⟨hkey, hstatus⟩ := h.dispatched
  have heff : srv.effects rt io req = io.effect 0 op w := by
    simp only [effects, hkey]
    cases req with
    | hashHincrbyfloat _ _ _ | pipelineExec _ | luaExec _ => cases hop
    | _ => simp only [dispatchEffects, hop]
  obtain ⟨failure, publish, call, hdispatch, -⟩ := dispatch_loggedWrite srv io hop
  rw [hdispatch] at hstatus
  cases hdisk : io.disk 0 with
  | some e =>
      rw [logFirst_failed hdisk] at hstatus
      exact absurd hstatus (by simp)
  | none => rw [heff, Io.effect, hdisk]

/-- An acknowledged SET had its value put into JSON. -/
theorem Acknowledged.json {rt : Runtime} {srv : Server} {io : Io} {key value : String}
    (h : srv.Acknowledged rt (io, .setValue key value none)) :
    ∃ json, rt.valueToJson (.str value) = .ok json := by
  have hstatus := h.dispatched.2
  simp only [dispatch, setValue, reduceCtorEq, if_false] at hstatus
  cases hjson : rt.valueToJson (.str value) with
  | error e =>
      rw [hjson] at hstatus
      exact absurd hstatus (by simp)
  | ok json => exact ⟨json, rfl⟩

/-- An acknowledged SET is within the limits. -/
theorem Acknowledged.valid {rt : Runtime} {srv : Server} {io : Io} {key value : String}
    (h : srv.Acknowledged rt (io, .setValue key value none)) :
    srv.store.config.Valid key (.str value) := by
  obtain ⟨json, hjson⟩ := h.json
  have hstatus := h.dispatched.2
  simp only [dispatch, setValue, reduceCtorEq, if_false, hjson] at hstatus
  cases hdisk : io.disk 0 with
  | some e =>
      rw [logFirst_failed hdisk] at hstatus
      exact absurd hstatus (by simp)
  | none =>
      rw [logFirst_response hdisk] at hstatus
      exact (setWithExpiry_ok_iff srv.store _ key (.str value) none).mp (ofResult_status hstatus)

/-- What replay makes of the operation is the call the handler made, at no clock in particular. -/
structure Echoed (rt : Runtime) (cfg : StoreConfig) (op : WalOperation) (w : Write) : Prop where
  replayed : op.replayed rt = some w
  timeless : w.Timeless
  replayable : op.Replayable rt cfg

theorem setValue_echoed {rt : Runtime} (hserde : rt.StrRoundTrip) {srv : Server} {io : Io}
    {key value : String} (h : srv.Acknowledged rt (io, .setValue key value none)) :
    ∃ json, (Request.setValue key value none).loggedWrite rt
        = some (.set key json none, .set key (.str value)) ∧
      Echoed rt srv.store.config (.set key json none) (.set key (.str value)) := by
  obtain ⟨json, hjson⟩ := h.json
  have hparse := hserde.decode hjson
  refine ⟨json, by simp [Request.loggedWrite, hjson, WalOperation.raw], ?_, trivial, ?_⟩
  · simp only [WalOperation.replayed, hparse, Option.map_some]
  · intro parsed hparsed
    rw [hparse] at hparsed
    cases hparsed
    exact h.valid

theorem hashHincrbyfloat_effects {rt : Runtime} {srv : Server} {io : Io} {key field : String}
    {amount : Float} (h : srv.Acknowledged rt (io, .hashHincrbyfloat key field amount)) :
    ∃ fields, srv.effects rt io (.hashHincrbyfloat key field amount)
      = [⟨some (WalEntry.new (io.loggedAt 0) (.hSet key fields)), some (io.now 0, .hset key fields)⟩] := by
  obtain ⟨hkey, hstatus⟩ := h.dispatched
  simp only [dispatch, hashHincrbyfloat] at hstatus
  simp only [effects, hkey, dispatchEffects]
  rcases hr : srv.store.hincrbyfloat rt key field amount with ⟨e | value, store⟩
  · rw [hr] at hstatus
    exact absurd hstatus (by simp)
  · rw [hr] at hstatus
    cases hdisk : io.disk 0 with
    | some e =>
        simp only [append, hdisk] at hstatus
        exact absurd hstatus (by simp)
    | none => exact ⟨_, rfl⟩

/-- An acknowledged single command has one effect: an entry, and the call its replay makes. -/
theorem single_effects {rt : Runtime} (hserde : rt.StrRoundTrip) {srv : Server} {io : Io}
    {req : Request} (hsingle : req.SingleCommand) (h : srv.Acknowledged rt (io, req))
    (hdecodes : req.LoggedDecodes rt) :
    ∃ op w, srv.effects rt io req = [⟨some (WalEntry.new (io.loggedAt 0) op), some (io.now 0, w)⟩] ∧
      Echoed rt srv.store.config op w := by
  cases req with
  | setValue key value ttl =>
      cases ttl with
      | some ttl => exact hsingle.elim
      | none =>
          obtain ⟨json, hop, hecho⟩ := setValue_echoed hserde h
          exact ⟨_, _, h.logged hop, hecho⟩
  | getsetValue key value =>
      exact ⟨_, _, h.logged rfl, WalOperation.replayed_of_selfDecoding hdecodes, trivial, trivial⟩
  | msetValues pairs =>
      exact ⟨_, _, h.logged rfl, WalOperation.replayed_of_selfDecoding hdecodes, trivial, trivial⟩
  | hashHincrbyfloat key field amount =>
      obtain ⟨fields, heff⟩ := hashHincrbyfloat_effects h
      exact ⟨_, _, heff, rfl, trivial, trivial⟩
  | setExpire _ _ | persistKey _ | pipelineExec _ | luaExec _ | cleanupExpired | multi | exec
  | discard | hllPfadd _ _ | hllPfreserve _ _ | hllPfmerge _ _ | setKeyspaceConfig _
  | pitrRecoverToTimestamp _ _ | pitrRecoverLatestSnapshot _ => exact hsingle.elim
  | _ => exact ⟨_, _, h.logged rfl, rfl, trivial, trivial⟩

/-! ## The live store and its replay -/

/-- Live store and replay agree in everything but the notifications. -/
def InStep (rt : Runtime) (cfg : StoreConfig) (clock : Nat → Nat) (srv : Server) : Prop :=
  ∃ r, replayWal rt (stamped clock srv.wal) (KvStore.withConfig cfg) = .ok r ∧
    r.quiet = srv.store.quiet

/-- Replay of one more entry makes the call that the live store has made. -/
theorem inStep_serve {rt : Runtime} (hserde : rt.StrRoundTrip) {cfg : StoreConfig}
    {clock : Nat → Nat} {srv : Server} {r : Io × Request} (hstep : InStep rt cfg clock srv)
    (hsingle : r.2.SingleCommand) (hack : srv.Acknowledged rt r) (hdecodes : r.2.LoggedDecodes rt) :
    InStep rt cfg clock (srv.serve rt r) := by
  obtain ⟨io, req⟩ := r
  obtain ⟨t, hreplay, hquiet⟩ := hstep
  obtain ⟨op, w, heff, hecho⟩ := single_effects hserde hsingle hack hdecodes
  have hperf := handle_performs rt srv io hsingle.isWrite
  rw [heff] at hperf
  have hwal : (srv.serve rt (io, req)).wal = srv.wal ++ [WalEntry.new (io.loggedAt 0) op] := hperf.wal
  have hlimits : op.Replayable rt t.config := by
    cases op with
    | set key value ttl =>
        intro parsed hparsed
        have hvalid := hecho.replayable parsed hparsed
        have hkeys : t.config.maxKeySize = srv.store.config.maxKeySize :=
          congrArg (fun s => s.config.maxKeySize) hquiet
        have hvalues : t.config.maxValueSize = srv.store.config.maxValueSize :=
          congrArg (fun s => s.config.maxValueSize) hquiet
        simpa [StoreConfig.Valid, StoreConfig.ValidKey, hkeys, hvalues] using hvalid
    | _ => trivial
  -- the replay of one entry more is one call more, at its own clock
  refine ⟨(t.write rt (clock srv.wal.length) w).2, ?_, ?_⟩
  · rw [hwal, stamped_concat, replayWal_append, hreplay]
    change replayWal rt [(clock srv.wal.length, WalEntry.new (io.loggedAt 0) op)] t = _
    rw [replayWal_cons_of_replayable hlimits]
    simp only [WalEntry.new, hecho.replayed]
    rfl
  · have hlive : (srv.serve rt (io, req)).store.quiet
        = (srv.store.write rt (io.now 0) w).2.quiet := hperf.store.quiet
    -- both calls are, at clock zero, the call on the one quiet store
    have hl := KvStore.write_quiet rt srv.store (io.now 0) 0 hecho.timeless
    have hr := KvStore.write_quiet rt t (clock srv.wal.length) 0 hecho.timeless
    rw [hquiet, hl] at hr
    rw [hlive]
    exact (congrArg Prod.snd hr).symm

/-- Crash recovery: a run of acknowledged single commands whose bare texts decode to themselves can
be replayed, and replay gives the values of the live store, after every one of its requests. -/
theorem replay_wal_recovers (rt : Runtime) (hserde : rt.StrRoundTrip) (cfg : StoreConfig)
    (runtime : Option ApiRuntimeConfig) (notify : Bool) (reqs : List (Io × Request))
    (hrun : Guarded (serve rt) (fun srv r => r.2.SingleCommand ∧ srv.Acknowledged rt r)
      (fresh cfg runtime notify) reqs)
    (hdecodes : ∀ r ∈ reqs, r.2.LoggedDecodes rt) :
    Always (serve rt) (Recovers rt cfg) (fresh cfg runtime notify) reqs := by
  have hinv : Always (serve rt) (fun srv => ∀ clock, InStep rt cfg clock srv)
      (fresh cfg runtime notify) reqs := by
    refine (hrun.and_forall hdecodes).always ?_ fun clock => ⟨_, rfl, rfl⟩
    intro srv r hstep hr clock
    exact inStep_serve hserde (hstep clock) hr.1.1 hr.1.2 hr.2
  refine hinv.mono fun srv hstep clock => ?_
  obtain ⟨t, hreplay, hquiet⟩ := hstep clock
  refine ⟨t, hreplay, ?_⟩
  rw [← KvStore.quiet_values t, hquiet, KvStore.quiet_values]

/-- A run of two commands that recovers. -/
theorem replay_wal_recovers_append :
    Always (serve .strings) (Recovers .strings {}) (fresh {} none false)
      [(Io.healthy 7, .setValue "k" "v" none), (Io.healthy 8, .appendValue "k" "w")] :=
  replay_wal_recovers .strings Runtime.strings_strRoundTrip {} none false _
    ⟨⟨trivial, rfl⟩, ⟨trivial, rfl⟩, trivial⟩ (by
      intro r hr
      rcases List.mem_pair.mp hr with rfl | rfl <;> trivial)

/-- GETSET logs the text `hello`, which is no JSON: replay drops the acknowledged write. -/
theorem getset_not_recovered :
    Guarded (serve .strings) (fun srv r => r.2.SingleCommand ∧ srv.Acknowledged .strings r)
        (fresh {} none false) [(Io.healthy 0, .getsetValue "k" "hello")] ∧
      ¬ Recovers .strings {} ((fresh {} none false).serve .strings
        (Io.healthy 0, .getsetValue "k" "hello")) := by
  refine ⟨⟨⟨trivial, rfl⟩, trivial⟩, fun h => ?_⟩
  obtain ⟨r, hreplay, hvalues⟩ := h fun _ => 0
  have hdropped : replayWal .strings (stamped (fun _ => 0) ((fresh {} none false).serve .strings
      (Io.healthy 0, .getsetValue "k" "hello")).wal) (KvStore.withConfig {}) = .ok (KvStore.withConfig {}) :=
    rfl
  rw [hdropped] at hreplay
  cases hreplay
  have hk := congrFun hvalues "k"
  revert hk
  decide

end Server

end Daikon
