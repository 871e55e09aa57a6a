/-
# Daikon.Recovery.Startup -- which logs a server can start from

Replay drops the error of every operation but one: a SET whose decoded value the store refuses ends
the startup. The handlers log before the store has looked at the request, so a refused SET is in the
log, and stays there: nothing ever takes an entry out again, and the same log stops every start after
it. Of the other operations none can do that, whatever their keys and values: replay goes on after an
error of APPEND, of a push or a counter, and a text of GETSET or MSET that does not decode is dropped.

`LogsReplayable` says when a request leaves no such SET, as a condition on the request, the limits and
the appends that succeed. `logged_replayable` shows that it says exactly this of the entries that the
request logs, kind of request by kind of request; `foldl_replayable` carries it over runs, and
`replay_wal_ok_iff` reads the log from the file, in an environment where an append that fails writes
nothing: the start goes through if and only if no request of the run has logged such a SET.
-/
import Daikon.Lib.Run
import Daikon.Recovery.Crash
import Daikon.Recovery.OnDisk

namespace Daikon

open Lib.Run (Guarded guarded_congr)

/-! ## The requests that leave a log to start from -/

/-- The pair a `set` or `setex` binding puts. -/
def LuaCall.pair : LuaCall → Option (String × String)
  | set key value | setex key value _ => some (key, value)
  | _ => none

namespace Server

/-- The request does not append a SET that the store refuses. `set_value` and the script bindings
log the value they put; a pipeline logs a text, and what counts is the value it decodes to. -/
def LogsReplayable (rt : Runtime) (cfg : StoreConfig) (srv : Server) (r : Io × Request) : Prop :=
  requireApiKey r.1.headers srv.runtime = none →
    match r.2 with
    | .setValue key value ttlSecs =>
        ttlSecs ≠ some 0 → r.1.disk 0 = none → cfg.Valid key (.str value)
    | .pipelineExec commands =>
        pipelineAdmitted commands = true →
          ∀ n key value ttlSecs, commands[n]? = some (.set key value ttlSecs) → r.1.disk n = none →
            ∀ parsed, rt.valueFromJson value = some parsed → cfg.Valid key parsed
    | .luaExec script =>
        srv.luaAdmitted script = true →
          ∀ n call key value, script.calls[n]? = some call → call.pair = some (key, value) →
            r.1.disk n = none → cfg.Valid key (.str value)
    | _ => True

/-- Every entry in the list is carried out or dropped by replay. -/
def AllReplayable (rt : Runtime) (cfg : StoreConfig) (entries : List WalEntry) : Prop :=
  ∀ entry ∈ entries, entry.operation.Replayable rt cfg

theorem allReplayable_entries {rt : Runtime} {cfg : StoreConfig} {io : Io}
    {ops : List (Option WalOperation)} :
    AllReplayable rt cfg (io.entries 0 ops) ↔
      ∀ n op, ops[n]? = some (some op) → io.disk n = none → op.Replayable rt cfg := by
  constructor
  · intro h n op hop hdisk
    exact h (WalEntry.new (io.loggedAt n) op)
      ((Io.mem_entries ops 0).mpr ⟨n, op, hop, by rwa [Nat.zero_add], by rw [Nat.zero_add]⟩)
  · intro h entry hentry
    obtain ⟨n, op, hop, hdisk, rfl⟩ := (Io.mem_entries ops 0).mp hentry
    rw [Nat.zero_add] at hdisk
    exact h n op hop hdisk

theorem set_replayable {rt : Runtime} (hserde : rt.StrRoundTrip) {cfg : StoreConfig}
    {key value json : String} {ttl : Option Nat} (hjson : rt.valueToJson (.str value) = .ok json) :
    (WalOperation.set key json ttl).Replayable rt cfg ↔ cfg.Valid key (.str value) := by
  constructor
  · intro h
    exact h _ (hserde.decode hjson)
  · intro h parsed hparsed
    rw [hserde.decode hjson] at hparsed
    cases hparsed
    exact h

theorem setValue_replayable {rt : Runtime} (hserde : rt.StrRoundTrip) {cfg : StoreConfig}
    (srv : Server) (io : Io) (key value : String) (ttl : Option Nat) :
    AllReplayable rt cfg
        ((dispatchEffects rt srv io (.setValue key value ttl)).filterMap Effect.logged) ↔
      (ttl ≠ some 0 → io.disk 0 = none → cfg.Valid key (.str value)) := by
  obtain ⟨json, hjson, -⟩ := hserde value
  by_cases httl : ttl = some 0
  · simp [dispatchEffects, Request.loggedWrite, httl, AllReplayable]
  · simp only [dispatchEffects, Request.loggedWrite, if_neg httl, hjson, effect_entries,
      allReplayable_entries]
    constructor
    · intro h _ hdisk
      exact (set_replayable hserde hjson).mp (h 0 _ rfl hdisk)
    · intro h n op hop hdisk
      cases n with
      | succ n => simp at hop
      | zero =>
          cases hop
          exact (set_replayable hserde hjson).mpr (h httl hdisk)

theorem pipeline_replayable {rt : Runtime} {cfg : StoreConfig} (srv : Server) (io : Io)
    (commands : List PipelineCommand) :
    AllReplayable rt cfg
        ((dispatchEffects rt srv io (.pipelineExec commands)).filterMap Effect.logged) ↔
      (pipelineAdmitted commands = true →
        ∀ n key value ttlSecs, commands[n]? = some (.set key value ttlSecs) → io.disk n = none →
          ∀ parsed, rt.valueFromJson value = some parsed → cfg.Valid key parsed) := by
  by_cases hadmitted : pipelineAdmitted commands = true
  · simp only [dispatchEffects, if_pos hadmitted, pipeline_entries, allReplayable_entries,
      List.getElem?_map]
    constructor
    · intro h _ n key value ttl hcmd hdisk
      exact h n (.set key value ttl) (by rw [hcmd]; rfl) hdisk
    · intro h n op hop hdisk
      cases hcmd : commands[n]? with
      | none => rw [hcmd] at hop; cases hop
      | some cmd =>
          rw [hcmd] at hop
          cases cmd with
          | set key value ttl =>
              cases hop
              exact h hadmitted n key value ttl hcmd hdisk
          | _ => cases hop <;> trivial
  · simp [dispatchEffects, hadmitted, AllReplayable]

theorem lua_replayable {rt : Runtime} (hserde : rt.StrRoundTrip) {cfg : StoreConfig} (srv : Server)
    (io : Io) (script : LuaScript) :
    AllReplayable rt cfg ((dispatchEffects rt srv io (.luaExec script)).filterMap Effect.logged) ↔
      (srv.luaAdmitted script = true →
        ∀ n call key value, script.calls[n]? = some call → call.pair = some (key, value) →
          io.disk n = none → cfg.Valid key (.str value)) := by
  -- the bindings log the JSON text, which decodes to the value
  have hset : ∀ key value ttl,
      (WalOperation.set key (luaValueJson rt value) ttl).Replayable rt cfg
        ↔ cfg.Valid key (.str value) := by
    intro key value ttl
    obtain ⟨json, hjson, -⟩ := hserde value
    rw [show luaValueJson rt value = json by simp only [luaValueJson, hjson]]
    exact set_replayable hserde hjson
  by_cases hadmitted : srv.luaAdmitted script = true
  · simp only [dispatchEffects, if_pos hadmitted, lua_entries, allReplayable_entries,
      List.getElem?_map]
    constructor
    · intro h _ n call key value hcall hpair hdisk
      cases call with
      | set k v => cases hpair; exact (hset _ _ _).mp (h n _ (by rw [hcall]; rfl) hdisk)
      | setex k v ttl => cases hpair; exact (hset _ _ _).mp (h n _ (by rw [hcall]; rfl) hdisk)
      | _ => cases hpair
    · intro h n op hop hdisk
      cases hcall : script.calls[n]? with
      | none => rw [hcall] at hop; cases hop
      | some call =>
          rw [hcall] at hop
          cases call with
          | set k v =>
              cases hop
              exact (hset _ _ _).mpr (h hadmitted n _ k v hcall rfl hdisk)
          | setex k v ttl =>
              cases hop
              exact (hset _ _ _).mpr (h hadmitted n _ k v hcall rfl hdisk)
          | _ => cases hop <;> trivial
  · simp [dispatchEffects, hadmitted, AllReplayable]

/-- The condition says exactly that what the request logs can be replayed. -/
theorem logged_replayable {rt : Runtime} (hserde : rt.StrRoundTrip) {cfg : StoreConfig}
    (srv : Server) (r : Io × Request) :
    AllReplayable rt cfg ((srv.effects rt r.1 r.2).filterMap Effect.logged) ↔
      srv.LogsReplayable rt cfg r := by
  obtain ⟨io, req⟩ := r
  unfold effects LogsReplayable
  cases requireApiKey io.headers srv.runtime with
  | some refusal => simp [AllReplayable]
  | none =>
      simp only [true_imp_iff]
      cases req with
      | setValue key value ttl => exact setValue_replayable hserde srv io key value ttl
      | pipelineExec commands => exact pipeline_replayable srv io commands
      | luaExec script => exact lua_replayable hserde srv io script
      | hashHincrbyfloat key field amount =>
          simp only [dispatchEffects, iff_true]
          cases (srv.store.hincrbyfloat rt key field amount).1 with
          | error e => simp [AllReplayable]
          | ok value => cases io.disk 0 <;> simp [AllReplayable, WalEntry.new, WalOperation.Replayable]
      | setExpire key ttl =>
          simp only [dispatchEffects, Request.loggedWrite, iff_true]
          by_cases httl : ttl = 0
          · simp [httl, AllReplayable]
          · rw [if_neg httl, effect_entries, allReplayable_entries]
            intro n op hop _
            cases n <;> cases hop
            trivial
      | _ =>
          simp only [dispatchEffects, Request.loggedWrite, iff_true, List.filterMap_nil,
            effect_entries, allReplayable_entries]
          first
          | exact fun entry h => absurd h (by simp)
          | (intro n op hop _
             cases n <;> cases hop
             trivial)

/-- Over a run: the log can be replayed exactly when each request left it so. -/
theorem foldl_replayable {rt : Runtime} {cfg : StoreConfig} (reqs : List (Io × Request)) :
    ∀ srv : Server, AllReplayable rt cfg (reqs.foldl (serve rt) srv).wal ↔
      AllReplayable rt cfg srv.wal ∧ Guarded (serve rt)
        (fun srv r => AllReplayable rt cfg ((srv.effects rt r.1 r.2).filterMap Effect.logged))
        srv reqs := by
  induction reqs with
  | nil => intro srv; simp
  | cons r reqs ih =>
      intro srv
      have hwal : (srv.serve rt r).wal
          = srv.wal ++ (srv.effects rt r.1 r.2).filterMap Effect.logged := handle_wal rt srv r.1 r.2
      have hsplit : AllReplayable rt cfg (srv.serve rt r).wal ↔ AllReplayable rt cfg srv.wal ∧
          AllReplayable rt cfg ((srv.effects rt r.1 r.2).filterMap Effect.logged) := by
        rw [hwal]
        simp only [AllReplayable, List.forall_mem_append]
      rw [List.foldl_cons, ih, hsplit, Lib.Run.guarded_cons, and_assoc]

/-- After a run of any requests from an empty log, replay with the same limits succeeds exactly when no
request of the run appended a SET that the store refuses. -/
theorem replayWal_run_ok_iff {rt : Runtime} (hserde : rt.StrRoundTrip) (cfg : StoreConfig)
    (runtime : Option ApiRuntimeConfig) (notify : Bool) (reqs : List (Io × Request))
    (clock : Nat → Nat) :
    (∃ store, replayWal rt (stamped clock (reqs.foldl (serve rt) (fresh cfg runtime notify)).wal)
        (KvStore.withConfig cfg) = .ok store) ↔
      Guarded (serve rt) (LogsReplayable rt cfg) (fresh cfg runtime notify) reqs := by
  have hempty : AllReplayable rt cfg (fresh cfg runtime notify).wal := fun entry h => by cases h
  rw [replayWal_ok_iff, ← guarded_congr (logged_replayable hserde)]
  constructor
  · intro h
    refine ((foldl_replayable reqs (fresh cfg runtime notify)).mp fun entry hentry => ?_).2
    obtain ⟨now, hmem⟩ := exists_mem_stamped hentry
    exact h _ hmem
  · intro h e he
    exact (foldl_replayable reqs (fresh cfg runtime notify)).mpr ⟨hempty, h⟩ e.2 (mem_stamped he)

end Server

namespace OnDisk

/-- Startup: after a run of any requests from an empty log, every append of which succeeded or failed before
it had written anything, the start from the file of the log goes through if and only if no request of the run
appended a SET that the store refuses. -/
theorem replay_wal_ok_iff (rt : Runtime) (hserde : rt.StrRoundTrip) (c : Codec) (hc : c.Lawful)
    (cfg : StoreConfig) (runtime : Option ApiRuntimeConfig) (notify : Bool)
    (reqs : List (DiskIo × Request)) (hclean : ∀ r ∈ reqs, r.1.FailsClean) (clock : Nat → Nat) :
    (∃ entries store, startFrom rt c cfg clock
        (reqs.foldl (serve rt c) (fresh cfg runtime notify)).log.file = .ok (entries, store)) ↔
      Guarded (serve rt c) (fun s r => s.server.LogsReplayable rt cfg (s.seen rt c r))
        (fresh cfg runtime notify) reqs := by
  have hwhole : (reqs.foldl (serve rt c) (fresh cfg runtime notify)).Whole c :=
    whole_foldl hc reqs (whole_of_empty rfl rfl) hclean
  obtain ⟨run, hserver, hguarded⟩ := exists_run rt c reqs (fresh cfg runtime notify)
  rw [hwhole.startFrom, hserver, hguarded]
  exact Server.replayWal_run_ok_iff hserde cfg runtime notify run clock

/-- The fields of a SET at time zero, of a key and a value without a character to escape. -/
def setFields (key value : String) : String :=
  "\"timestamp\":0,\"operation\":\x7b\"op\":\"SET\",\"key\":\"" ++ key ++
    "\",\"value\":\"\\\"" ++ value ++ "\\\"\",\"ttl_secs\":null\x7d"

/-- The line of such a SET. -/
def setText (key value : String) : String := "\x7b" ++ setFields key value ++ "\x7d"

/-- A codec for the SETs of some pairs. -/
def setCodec (pairs : List (String × String)) : Codec :=
  .plain (pairs.map fun p => (⟨0, .set p.1 (strToJson p.2) none⟩, setText p.1 p.2))

theorem setCodec_lawful {pairs : List (String × String)}
    (h : ∀ p ∈ pairs, newline ∉ utf8 (setText p.1 p.2) ∧
      pairs.find? (fun q => utf8 (setText q.1 q.2) = utf8 (setText p.1 p.2)) = some p) :
    (setCodec pairs).Lawful := by
  refine Codec.plain_lawful fun sample hsample => ?_
  obtain ⟨p, hp, rfl⟩ := List.mem_map.mp hsample
  refine ⟨⟨setFields p.1 p.2, rfl⟩, (h p hp).1, ?_⟩
  simp only [List.find?_map, Function.comp_def, (h p hp).2, Option.map_some]

/-- A disk that is full, and refuses the first byte. -/
def fullDisk : DiskIo := { DiskIo.healthy 0 with disk := fun _ => some (.ioError "no space left on device") }

/-- A SET with an empty key that finds the disk full, and then a SET that can be replayed. -/
theorem replay_wal_ok_iff_set :
    ∃ entries store, startFrom .strings (setCodec [("k", "v")]) {} (fun _ => 0)
      ([(fullDisk, .setValue "" "v" none), (DiskIo.healthy 0, .setValue "k" "v" none)].foldl
        (serve .strings (setCodec [("k", "v")])) (fresh {} none false)).log.file = .ok (entries, store) := by
  refine (replay_wal_ok_iff .strings Runtime.strings_strRoundTrip (setCodec [("k", "v")])
    (setCodec_lawful (by decide +kernel)) {} none false _ ?_ fun _ => 0).mpr ⟨?_, ?_, trivial⟩
  · intro r hr
    rcases List.mem_pair.mp hr with rfl | rfl
    · exact fun _ _ => rfl
    · exact DiskIo.healthy_failsClean 0
  · intro _ _ hdisk
    exact absurd hdisk (by decide)
  · exact fun _ _ _ => by decide

end OnDisk

namespace Server

/-- A key of one byte more than the limits allow. -/
def longKey : String := String.ofList (List.replicate 1025 'k')

theorem longKey_too_long : ¬ longKey.utf8ByteSize ≤ 1024 := by decide +kernel

/-- The store refuses the key, after the SET was logged: the next startup fails. -/
theorem long_key_blocks_startup :
    ¬ ∃ store, replayWal .strings (stamped (fun _ => 0)
        ((fresh {} none false).serve .strings (Io.healthy 0, .setValue longKey "v" none)).wal)
      (KvStore.withConfig {}) = .ok store := by
  rw [setValue_wal (Runtime.strings_valueToJson "v") rfl rfl, replayWal_ok_iff]
  intro h
  have hdecode : Runtime.strings.valueFromJson (strToJson "v") = some (.str "v") := by
    rw [Runtime.strings_valueFromJson]
    exact strFromJson_strToJson "v"
  have hvalid := h (0, WalEntry.new 0 (.set longKey (strToJson "v") none))
    (List.mem_singleton.mpr rfl) (.str "v") hdecode
  exact longKey_too_long hvalid.1.2

end Server

end Daikon
