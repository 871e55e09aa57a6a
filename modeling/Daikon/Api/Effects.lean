/-
# Daikon.Api.Effects -- a request as a list of log entries and store calls

The abstract view of a request: a list of effects, each an entry put in the log, a store call, or
the two together. A pipeline logs all its entries before its first call and a script goes call by
call, but the store reads nothing of the log, so both are the same list of effects. `handle_wal`
and `handle_performs` connect the view to the handlers, and `effects_of` says what effects there are.

The view is proved for every route, and after it no proof about logs or stores goes through the handlers
again: replay, recovery, restart, the durability of what was acknowledged and the effects of a failing
append all begin with `handle_performs`. `LoggedCall` lists the operations with the calls they are logged
for, and `EffectOf` the two calls that go without an entry.

Where a handler makes the call before it logs, as `hash_hincrbyfloat` does, the effect is the call and the
entry of its result, so that both orders are the same list. What a view of this kind leaves out are the
answers and the events; these are in `Daikon.Api.Local` and `Daikon.Api.Announced`.
-/
import Daikon.Api.Request
import Daikon.Wal.Keys

namespace Daikon

/-- One step of a request on the log and the store. -/
structure Effect where
  logged : Option WalEntry
  /-- The clock and the call. -/
  call : Option (Nat × Write)

/-- The store after the call of an effect. -/
def Effect.onStore (rt : Runtime) (s : KvStore) (e : Effect) : KvStore :=
  e.call.elim s fun c => (s.write rt c.1 c.2).2

/-- Log an operation, and make a call if that succeeds. -/
def Io.effect (io : Io) (n : Nat) (op : WalOperation) (w : Write) : List Effect :=
  match io.disk n with
  | some _ => []
  | none => [⟨some (WalEntry.new (io.loggedAt n) op), some (io.now n, w)⟩]

/-- The effects of the commands of a pipeline, each with the append of its own place. -/
def pipelineEffects (io : Io) : Nat → List PipelineCommand → List Effect
  | _, [] => []
  | n, cmd :: cmds =>
      (match cmd.logged with
        | some op => io.effect n op op.raw
        | none => []) ++ pipelineEffects io (n + 1) cmds

/-- The store call of a binding. -/
def LuaCall.write : LuaCall → Write
  | set key value => .set key (.str value)
  | setex key value ttlSecs => .setWithTtl key (.str value) ttlSecs
  | delete key => .delete key
  | incr key => .incr key
  | hset key field value => .hset key ((∅ : Fields).insert field value)
  | hdel key field => .hdel key [field]

/-- The effects of the bindings of a script. `hset` and `hdel` make their call without an entry. -/
def luaEffects (rt : Runtime) (io : Io) : Nat → List LuaCall → List Effect
  | _, [] => []
  | n, call :: calls =>
      (match call.logged rt with
        | some op => io.effect n op call.write
        | none => [⟨none, some (io.now n, call.write)⟩]) ++ luaEffects rt io (n + 1) calls

/-- The pipeline is carried out. -/
def pipelineAdmitted (commands : List PipelineCommand) : Bool :=
  !commands.isEmpty && commands.length ≤ maxPipelineCommands

namespace Server

/-- The script is run. -/
def luaAdmitted (srv : Server) (script : LuaScript) : Bool :=
  srv.runtime.all (fun cfg => cfg.luaEnabled && script.text.utf8ByteSize ≤ cfg.maxLuaScriptBytes) &&
    !srv.store.inTransaction

/-- The effects of a request that has the API key. -/
def dispatchEffects (rt : Runtime) (srv : Server) (io : Io) : Request → List Effect
  | .pipelineExec commands =>
      if pipelineAdmitted commands then pipelineEffects io 0 commands else []
  | .luaExec script => if srv.luaAdmitted script then luaEffects rt io 0 script.calls else []
  | .hashHincrbyfloat key field amount =>
      -- the call comes first; its result is what is logged, and putting it has the same effect
      match (srv.store.hincrbyfloat rt key field amount).1 with
      | .ok value =>
          let fields : Fields := (∅ : Fields).insert field (rt.f64ToString value)
          [⟨if (io.disk 0).isNone then some (WalEntry.new (io.loggedAt 0) (.hSet key fields)) else none,
            some (io.now 0, .hset key fields)⟩]
      | .error _ => []
  | req =>
      match req.loggedWrite rt with
      | some (op, w) => io.effect 0 op w
      | none => []

/-- The effects of a request. -/
def effects (rt : Runtime) (srv : Server) (io : Io) (req : Request) : List Effect :=
  match requireApiKey io.headers srv.runtime with
  | some _ => []
  | none => dispatchEffects rt srv io req

end Server

/-- The requests whose every store call is a data call of the log. -/
def Request.IsWrite : Request → Prop
  | cleanupExpired | multi | exec | discard | hllPfadd _ _ | hllPfreserve _ _ | hllPfmerge _ _
  | setKeyspaceConfig _ | pitrRecoverToTimestamp _ _ | pitrRecoverLatestSnapshot _ => False
  | _ => True

/-! ## Pipelines -/

theorem PipelineResult.ofResult_snd {α : Type} (value : α → Option Json)
    (r : Except KvStoreError α × KvStore) : (PipelineResult.ofResult value r).2 = r.2 := by
  unfold PipelineResult.ofResult
  split <;> rfl

namespace PipelineCommand

theorem run_logged {rt : Runtime} {now : Nat} {store : KvStore} {cmd : PipelineCommand}
    {op : WalOperation} (h : cmd.logged = some op) :
    (cmd.run rt now store).2 = (store.write rt now op.raw).2 := by
  cases cmd with
  | set key value ttl =>
      cases h
      cases ttl <;> exact PipelineResult.ofResult_snd _ _
  | delete key => cases h; rfl
  | get _ | exists_ _ | mGet _ | lRange _ _ _ | lLen _ => cases h
  | _ => cases h; exact PipelineResult.ofResult_snd _ _

theorem run_unlogged {rt : Runtime} {now : Nat} {store : KvStore} {cmd : PipelineCommand}
    (h : cmd.logged = none) : (cmd.run rt now store).2 = store := by
  cases cmd with
  | get _ | exists_ _ | mGet _ => rfl
  | lRange _ _ _ | lLen _ => exact PipelineResult.ofResult_snd _ _
  | _ => cases h

end PipelineCommand

namespace Server

/-- Phase 1 changes the log only, by the entries of the effects. -/
theorem batchWal_snd (io : Io) (cmds : List PipelineCommand) :
    ∀ (n : Nat) (srv : Server), (batchWal io n cmds srv).2
      = { srv with wal := srv.wal ++ (pipelineEffects io n cmds).filterMap Effect.logged } := by
  induction cmds with
  | nil => intro n srv; simp [batchWal, pipelineEffects]
  | cons cmd cmds ih =>
      intro n srv
      unfold batchWal pipelineEffects
      cases hop : cmd.logged with
      | none => simp [ih]
      | some op =>
          cases hdisk : io.disk n with
          | some e => simp [append, Io.effect, hdisk, ih]
          | none => simp [append, Io.effect, hdisk, ih]

/-- Phase 2 makes the calls of the effects. -/
theorem executeAll_snd (rt : Runtime) (io : Io) (cmds : List PipelineCommand) :
    ∀ (n : Nat) (srv : Server) (store : KvStore),
      (executeAll rt io n (cmds.zip (batchWal io n cmds srv).1) store).2
        = (pipelineEffects io n cmds).foldl (Effect.onStore rt) store := by
  induction cmds with
  | nil => intro n srv store; rfl
  | cons cmd cmds ih =>
      intro n srv store
      unfold batchWal pipelineEffects
      cases hop : cmd.logged with
      | none =>
          simp only [List.zip_cons_cons, executeAll, PipelineCommand.execute, List.nil_append]
          rw [PipelineCommand.run_unlogged hop]
          exact ih (n + 1) srv store
      | some op =>
          cases hdisk : io.disk n with
          | some e =>
              simp only [append, hdisk, Io.effect, List.zip_cons_cons, executeAll,
                PipelineCommand.execute, List.nil_append]
              exact ih (n + 1) srv store
          | none =>
              simp only [append, hdisk, Io.effect, List.zip_cons_cons, executeAll,
                PipelineCommand.execute, List.singleton_append, List.foldl_cons]
              rw [PipelineCommand.run_logged hop]
              exact ih (n + 1) _ _

theorem pipelineExec_eq (rt : Runtime) (srv : Server) (io : Io) (commands : List PipelineCommand) :
    (srv.pipelineExec rt io commands).2 = if pipelineAdmitted commands then
      publishKeyspaceEvents { srv with
        wal := srv.wal ++ (pipelineEffects io 0 commands).filterMap Effect.logged
        store := (pipelineEffects io 0 commands).foldl (Effect.onStore rt) srv.store } else srv := by
  have hadmitted : pipelineAdmitted commands = true ↔
      ¬ commands.isEmpty = true ∧ ¬ commands.length > maxPipelineCommands := by
    simp [pipelineAdmitted]
  unfold pipelineExec
  by_cases hempty : commands.isEmpty = true
  · rw [if_pos hempty, if_neg fun h => (hadmitted.mp h).1 hempty]
  · by_cases hlong : commands.length > maxPipelineCommands
    · rw [if_neg hempty, if_pos hlong, if_neg fun h => (hadmitted.mp h).2 hlong]
    · rw [if_neg hempty, if_neg hlong, if_pos (hadmitted.mpr ⟨hempty, hlong⟩)]
      rw [← executeAll_snd rt io commands 0 srv srv.store]
      simp only [batchWal_snd]

theorem pipelineExec_snd (rt : Runtime) (srv : Server) (io : Io) (commands : List PipelineCommand) :
    (srv.pipelineExec rt io commands).2.wal
        = srv.wal ++ (dispatchEffects rt srv io (.pipelineExec commands)).filterMap Effect.logged ∧
      Settled ((dispatchEffects rt srv io (.pipelineExec commands)).foldl (Effect.onStore rt) srv.store)
        (srv.pipelineExec rt io commands).2.store := by
  rw [pipelineExec_eq, dispatchEffects]
  cases pipelineAdmitted commands with
  | true => exact ⟨rfl, [], rfl⟩
  | false => exact ⟨(List.append_nil _).symm, Settled.refl _⟩

/-! ## Scripts -/

theorem luaCall_run (rt : Runtime) (now : Nat) (store : KvStore) (call : LuaCall) :
    call.run now store = (store.write rt now call.write).2 := by
  cases call <;> rfl

theorem luaCalls_eq (rt : Runtime) (io : Io) (calls : List LuaCall) :
    ∀ (n : Nat) (srv : Server), luaCalls rt io n calls srv
      = { srv with
          wal := srv.wal ++ (luaEffects rt io n calls).filterMap Effect.logged
          store := (luaEffects rt io n calls).foldl (Effect.onStore rt) srv.store } := by
  induction calls with
  | nil => intro n srv; simp [luaCalls, luaEffects]
  | cons call calls ih =>
      intro n srv
      unfold luaCalls luaEffects luaCall
      cases hop : call.logged rt with
      | none => simp [ih, Effect.onStore, luaCall_run rt]
      | some op =>
          cases hdisk : io.disk n with
          | some e => simp [append, Io.effect, hdisk, ih]
          | none => simp [append, Io.effect, hdisk, ih, Effect.onStore, luaCall_run rt]

theorem luaExec_snd (rt : Runtime) (srv : Server) (io : Io) (script : LuaScript) :
    (srv.luaExec rt io script).2 = if srv.luaAdmitted script then luaCalls rt io 0 script.calls srv
      else srv := by
  unfold luaExec luaAdmitted
  cases srv.runtime with
  | none =>
      simp only [Option.elim, Option.bind, Option.all_none, Bool.true_and, Bool.not_true,
        Bool.false_eq_true, if_false]
      cases htx : srv.store.inTransaction with
      | true => simp
      | false => cases script.outcome <;> simp
  | some cfg =>
      simp only [Option.elim, Option.bind_some, Option.all_some]
      by_cases hon : cfg.luaEnabled = true
      · by_cases hlong : script.text.utf8ByteSize > cfg.maxLuaScriptBytes
        · simp [hon, hlong, Nat.not_le.mpr hlong]
        · have hle : script.text.utf8ByteSize ≤ cfg.maxLuaScriptBytes := Nat.not_lt.mp hlong
          cases htx : srv.store.inTransaction with
          | true => simp [hon, hlong]
          | false => cases script.outcome <;> simp [hon, hlong, hle]
      · simp [hon]

/-! ## Every request -/

/-- Putting the field that `hincrbyfloat` has computed leaves the store that it leaves. -/
theorem hset_of_hincrbyfloat {rt : Runtime} {s : KvStore} {key field : String} {amount value : Float}
    (h : (s.hincrbyfloat rt key field amount).1 = .ok value) :
    (s.hset key ((∅ : Fields).insert field (rt.f64ToString value))).2
      = (s.hincrbyfloat rt key field amount).2 := by
  unfold KvStore.hincrbyfloat KvStore.addToField at h ⊢
  unfold KvStore.hset
  cases hvalid : s.validateKey key with
  | error e => rfl
  | ok _ =>
      rw [hvalid] at h
      cases hkey : s.store[key]? with
      | none =>
          rw [hkey] at h
          cases h
          rfl
      | some entry =>
          rw [hkey] at h
          obtain ⟨v, expiresAt⟩ := entry
          cases v with
          | hash map =>
              cases h
              rfl
          | _ => cases h

/-- The store of `hash_hincrbyfloat` is that after its call, whether the append succeeds or not. -/
theorem hashHincrbyfloat_store (rt : Runtime) (srv : Server) (io : Io) (key field : String)
    (amount : Float) : (srv.hashHincrbyfloat rt io key field amount).2.store
      = (srv.store.hincrbyfloat rt key field amount).2 := by
  unfold hashHincrbyfloat append
  rcases srv.store.hincrbyfloat rt key field amount with ⟨e | value, store⟩
  · rfl
  · cases io.disk 0 <;> rfl

/-- The handler's steps on the log and the store are the effects of its request. -/
structure Performs (rt : Runtime) (srv : Server) (effects : List Effect) (after : Server) : Prop where
  wal : after.wal = srv.wal ++ effects.filterMap Effect.logged
  store : Settled (effects.foldl (Effect.onStore rt) srv.store) after.store

theorem Performs.nothing (rt : Runtime) (srv : Server) : Performs rt srv [] srv :=
  ⟨by simp, Settled.refl _⟩

theorem logFirst_performs {rt : Runtime} {srv : Server} {io : Io} {op : WalOperation} {w : Write}
    {answer : Response × Server} (h : LogsFirst rt srv io op w answer) :
    Performs rt srv (io.effect 0 op w) answer.2 := by
  obtain ⟨failure, publish, call, rfl, hcall⟩ := h
  cases hdisk : io.disk 0 with
  | none =>
      have heff : io.effect 0 op w = [⟨some (WalEntry.new (io.loggedAt 0) op), some (io.now 0, w)⟩] := by
        simp only [Io.effect, hdisk]
      rw [heff]
      refine ⟨by rw [logFirst_wal hdisk]; rfl, ?_⟩
      have hstore : Effect.onStore rt srv.store
          ⟨some (WalEntry.new (io.loggedAt 0) op), some (io.now 0, w)⟩ = (call srv.store).2 := hcall.symm
      rw [List.foldl_cons, List.foldl_nil, hstore]
      exact logFirst_store hdisk
  | some e =>
      have heff : io.effect 0 op w = [] := by simp only [Io.effect, hdisk]
      rw [heff, logFirst_failed hdisk]
      exact Performs.nothing rt srv

/-- A call that fails changes nothing. -/
theorem hincrbyfloat_failed {rt : Runtime} {s : KvStore} {key field : String} {amount : Float}
    {e : KvStoreError} (h : (s.hincrbyfloat rt key field amount).1 = .error e) :
    (s.hincrbyfloat rt key field amount).2 = s := by
  unfold KvStore.hincrbyfloat KvStore.addToField at h ⊢
  cases hvalid : s.validateKey key with
  | error e' => rfl
  | ok _ =>
      rw [hvalid] at h
      simp only at h ⊢
      split at h
      · cases h
      · rfl
      · cases h

/-- Its effect on the store is the call, whether it is logged or not. -/
theorem hashHincrbyfloat_calls (rt : Runtime) (srv : Server) (io : Io) (key field : String)
    (amount : Float) :
    (dispatchEffects rt srv io (.hashHincrbyfloat key field amount)).foldl (Effect.onStore rt) srv.store
      = (srv.store.hincrbyfloat rt key field amount).2 := by
  rw [dispatchEffects]
  cases hr : (srv.store.hincrbyfloat rt key field amount).1 with
  | error e => exact (hincrbyfloat_failed hr).symm
  | ok value => exact hset_of_hincrbyfloat hr

theorem hashHincrbyfloat_performs (rt : Runtime) (srv : Server) (io : Io) (key field : String)
    (amount : Float) :
    Performs rt srv (dispatchEffects rt srv io (.hashHincrbyfloat key field amount))
      (srv.hashHincrbyfloat rt io key field amount).2 := by
  refine ⟨?_, ?_⟩
  · simp only [hashHincrbyfloat, dispatchEffects]
    rcases srv.store.hincrbyfloat rt key field amount with ⟨e | value, store⟩
    · exact (List.append_nil _).symm
    · unfold append
      cases io.disk 0 with
      | none => rfl
      | some e => exact (List.append_nil _).symm
  · rw [hashHincrbyfloat_calls, hashHincrbyfloat_store]
    exact Settled.refl _

theorem luaExec_performs (rt : Runtime) (srv : Server) (io : Io) (script : LuaScript) :
    Performs rt srv (dispatchEffects rt srv io (.luaExec script)) (srv.luaExec rt io script).2 := by
  rw [luaExec_snd]
  simp only [dispatchEffects]
  by_cases hadmitted : srv.luaAdmitted script = true
  · rw [if_pos hadmitted, if_pos hadmitted, luaCalls_eq]
    exact ⟨rfl, Settled.refl _⟩
  · rw [if_neg hadmitted, if_neg hadmitted]
    exact Performs.nothing rt srv

/-- A `set_value` that is turned away before its append changes nothing. -/
theorem setValue_unlogged {rt : Runtime} (srv : Server) (io : Io) {key value : String}
    {ttl : Option Nat} (h : (Request.setValue key value ttl).loggedWrite rt = none) :
    (srv.setValue rt io key value ttl).2 = srv := by
  simp only [Request.loggedWrite] at h
  unfold setValue
  split
  · rfl
  · next httl =>
      rw [if_neg httl] at h
      cases hjson : rt.valueToJson (.str value) with
      | error e => rfl
      | ok json => rw [hjson] at h; cases h

/-- So does a `set_expire`. -/
theorem setExpire_unlogged {rt : Runtime} (srv : Server) (io : Io) {key : String} {ttl : Nat}
    (h : (Request.setExpire key ttl).loggedWrite rt = none) : (srv.setExpire io key ttl).2 = srv := by
  have hzero : ttl = 0 := by
    by_contra httl
    simp [Request.loggedWrite, httl] at h
  rw [setExpire, if_pos hzero]

/-- The effects of a log-first request. -/
theorem dispatchEffects_loggedWrite {rt : Runtime} (srv : Server) (io : Io) {req : Request}
    {op : WalOperation} {w : Write} (h : req.loggedWrite rt = some (op, w)) :
    dispatchEffects rt srv io req = io.effect 0 op w := by
  cases req with
  | hashHincrbyfloat _ _ _ | pipelineExec _ | luaExec _ => cases h
  | _ => simp only [dispatchEffects, h]

theorem dispatch_performs (rt : Runtime) (srv : Server) (io : Io) {req : Request} (h : req.IsWrite) :
    Performs rt srv (dispatchEffects rt srv io req) (srv.dispatch rt io req).2 := by
  cases hop : req.loggedWrite rt with
  | some p =>
      have hfirst := dispatch_loggedWrite srv io hop
      rw [dispatchEffects_loggedWrite srv io hop]
      exact logFirst_performs hfirst
  -- the others log more than once, after the call, or are turned away before they log
  | none =>
      cases req with
      | hashHincrbyfloat key field amount => exact hashHincrbyfloat_performs rt srv io key field amount
      | pipelineExec commands =>
          obtain ⟨hwal, hstore⟩ := pipelineExec_snd rt srv io commands
          exact ⟨hwal, hstore⟩
      | luaExec script => exact luaExec_performs rt srv io script
      | setValue key value ttl =>
          have hnone : (srv.setValue rt io key value ttl).2 = srv := setValue_unlogged srv io hop
          simp only [dispatchEffects, hop, dispatch, hnone]
          exact Performs.nothing rt srv
      | setExpire key ttl =>
          have hnone : (srv.setExpire io key ttl).2 = srv := setExpire_unlogged srv io hop
          simp only [dispatchEffects, hop, dispatch, hnone]
          exact Performs.nothing rt srv
      | cleanupExpired | multi | exec | discard | hllPfadd _ _ | hllPfreserve _ _ | hllPfmerge _ _
      | setKeyspaceConfig _ | pitrRecoverToTimestamp _ _ | pitrRecoverLatestSnapshot _ => exact h.elim
      | _ => cases hop

/-- A write request performs its effects. -/
theorem handle_performs (rt : Runtime) (srv : Server) (io : Io) {req : Request} (h : req.IsWrite) :
    Performs rt srv (srv.effects rt io req) (srv.handle rt io req).2 := by
  unfold handle effects
  cases requireApiKey io.headers srv.runtime with
  | some refusal => exact Performs.nothing rt srv
  | none => exact dispatch_performs rt srv io h

/-- The other requests have no effects of this kind. -/
theorem dispatchEffects_eq_nil (rt : Runtime) (srv : Server) (io : Io) {req : Request}
    (h : ¬ req.IsWrite) : dispatchEffects rt srv io req = [] := by
  cases req with
  | cleanupExpired | multi | exec | discard | hllPfadd _ _ | hllPfreserve _ _ | hllPfmerge _ _
  | setKeyspaceConfig _ | pitrRecoverToTimestamp _ _ | pitrRecoverLatestSnapshot _ => rfl
  | _ => exact absurd trivial h

/-- What a request logs: the entries of its effects, and nothing where it is no write. -/
theorem handle_wal (rt : Runtime) (srv : Server) (io : Io) (req : Request) :
    (srv.handle rt io req).2.wal = srv.wal ++ (srv.effects rt io req).filterMap Effect.logged := by
  by_cases h : req.IsWrite
  · exact (handle_performs rt srv io h).wal
  · -- no handler that is left appends anything
    unfold handle effects
    cases requireApiKey io.headers srv.runtime with
    | some refusal => exact (List.append_nil _).symm
    | none =>
        simp only [dispatchEffects_eq_nil rt srv io h, List.filterMap_nil, List.append_nil]
        cases req with
        | cleanupExpired | hllPfadd _ _ | hllPfreserve _ _ | hllPfmerge _ _ | setKeyspaceConfig _ => rfl
        | multi | exec | discard =>
            simp only [dispatch, multi, exec, discard, transactionAnswer_snd]
        | pitrRecoverToTimestamp target recovered => cases recovered <;> rfl
        | pitrRecoverLatestSnapshot recovered => cases recovered <;> rfl
        | _ => exact absurd trivial h

/-! ## What the effects of a request can be -/

/-- The operations that are logged, each with the call that it is logged for. -/
inductive LoggedCall (rt : Runtime) : WalOperation → Write → Prop
  | request {req : Request} {op : WalOperation} {w : Write} (h : req.loggedWrite rt = some (op, w)) :
      LoggedCall rt op w
  | command {cmd : PipelineCommand} {op : WalOperation} (h : cmd.logged = some op) :
      LoggedCall rt op op.raw
  | binding {call : LuaCall} {op : WalOperation} (h : call.logged rt = some op) :
      LoggedCall rt op call.write
  | field (key : String) (fields : Fields) : LoggedCall rt (.hSet key fields) (.hset key fields)

/-- An entry with its call, or one of the two calls that may go without an entry. -/
inductive EffectOf (rt : Runtime) : Effect → Prop
  | logged {timestamp now : Nat} {op : WalOperation} {w : Write} (h : LoggedCall rt op w) :
      EffectOf rt ⟨some (WalEntry.new timestamp op), some (now, w)⟩
  | hset (now : Nat) (key : String) (fields : Fields) : EffectOf rt ⟨none, some (now, .hset key fields)⟩
  | hdel (now : Nat) (key : String) (fields : List String) :
      EffectOf rt ⟨none, some (now, .hdel key fields)⟩

theorem effect_of {rt : Runtime} {io : Io} {n : Nat} {op : WalOperation} {w : Write}
    (h : LoggedCall rt op w) : ∀ e ∈ io.effect n op w, EffectOf rt e := by
  intro e he
  unfold Io.effect at he
  split at he
  · cases he
  · rw [List.mem_singleton.mp he]
    exact .logged h

theorem pipelineEffects_of (rt : Runtime) (io : Io) (commands : List PipelineCommand) :
    ∀ n, ∀ e ∈ pipelineEffects io n commands, EffectOf rt e := by
  induction commands with
  | nil => intro n e he; cases he
  | cons cmd commands ih =>
      intro n e he
      rw [pipelineEffects] at he
      rcases List.mem_append.mp he with he | he
      · cases hop : cmd.logged with
        | none => rw [hop] at he; cases he
        | some op => rw [hop] at he; exact effect_of (.command hop) e he
      · exact ih (n + 1) e he

theorem luaEffects_of (rt : Runtime) (io : Io) (calls : List LuaCall) :
    ∀ n, ∀ e ∈ luaEffects rt io n calls, EffectOf rt e := by
  induction calls with
  | nil => intro n e he; cases he
  | cons call calls ih =>
      intro n e he
      rw [luaEffects] at he
      rcases List.mem_append.mp he with he | he
      · cases hop : call.logged rt with
        | some op => rw [hop] at he; exact effect_of (.binding hop) e he
        | none =>
            rw [hop] at he
            rw [List.mem_singleton.mp he]
            cases call with
            | hset key field value => exact .hset _ _ _
            | hdel key field => exact .hdel _ _ _
            | _ => cases hop
      · exact ih (n + 1) e he

/-- The effects of a request are of these kinds. -/
theorem effects_of (rt : Runtime) (srv : Server) (io : Io) (req : Request) :
    ∀ e ∈ srv.effects rt io req, EffectOf rt e := by
  intro e he
  unfold effects at he
  split at he
  · cases he
  · unfold dispatchEffects at he
    split at he
    · split at he
      · exact pipelineEffects_of rt io _ 0 e he
      · cases he
    · split at he
      · exact luaEffects_of rt io _ 0 e he
      · cases he
    · split at he
      · rw [List.mem_singleton.mp he]
        cases (io.disk 0).isNone with
        | true => exact .logged (.field _ _)
        | false => exact .hset _ _ _
      · cases he
    · split at he
      · next hlogged => exact effect_of (.request hlogged) e he
      · cases he

/-- An entry and its call: both act key by key, and the entry names the keys of the call. -/
structure Matched (op : WalOperation) (w : Write) : Prop where
  call : w.Keyed
  entry : op.raw.Keyed
  keys : w.keys = op.keys

theorem LoggedCall.matched {rt : Runtime} {op : WalOperation} {w : Write} (h : LoggedCall rt op w) :
    Matched op w := by
  cases h with
  | @request req op w h =>
      cases req with
      | setValue key value ttl =>
          obtain ⟨-, json, -, rfl, rfl⟩ := Request.loggedWrite_setValue h
          cases ttl <;> exact ⟨trivial, trivial, rfl⟩
      | setExpire key ttl =>
          obtain ⟨-, rfl, rfl⟩ := Request.loggedWrite_setExpire h
          exact ⟨trivial, trivial, rfl⟩
      | _ => cases h <;> exact ⟨trivial, trivial, rfl⟩
  | @command cmd op h =>
      cases cmd with
      | set key value ttl => cases h; cases ttl <;> exact ⟨trivial, trivial, rfl⟩
      | _ => cases h <;> exact ⟨trivial, trivial, rfl⟩
  | @binding call op h => cases call <;> cases h <;> exact ⟨trivial, trivial, rfl⟩
  | field key fields => exact ⟨trivial, trivial, rfl⟩

theorem loggedWrite_keyed {rt : Runtime} {req : Request} {op : WalOperation} {w : Write}
    (h : req.loggedWrite rt = some (op, w)) : w.Keyed :=
  (LoggedCall.request h).matched.call

/-- The effect is a call that acts key by key. -/
def CallsKeyed (e : Effect) : Prop := ∃ c, e.call = some c ∧ c.2.Keyed

/-- Every effect of a request is a keyed call. -/
theorem effects_keyed (rt : Runtime) (srv : Server) (io : Io) (req : Request) :
    ∀ e ∈ srv.effects rt io req, CallsKeyed e := by
  intro e he
  cases effects_of rt srv io req e he with
  | logged h => exact ⟨_, rfl, h.matched.call⟩
  | hset now key fields => exact ⟨_, rfl, trivial⟩
  | hdel now key fields => exact ⟨_, rfl, trivial⟩

/-- No request logs a HyperLogLog operation. -/
theorem effects_entries_keyed {rt : Runtime} {srv : Server} {io : Io} {req : Request}
    {entry : WalEntry} (h : entry ∈ (srv.effects rt io req).filterMap Effect.logged) :
    entry.operation.raw.Keyed := by
  obtain ⟨e, he, hlogged⟩ := List.mem_filterMap.mp h
  cases effects_of rt srv io req e he with
  | logged hcall =>
      cases hlogged
      exact hcall.matched.entry
  | hset now key fields => cases hlogged
  | hdel now key fields => cases hlogged

/-- The store after the effects is the store after their calls. -/
theorem foldl_onStore (rt : Runtime) (effects : List Effect) :
    ∀ s : KvStore, effects.foldl (Effect.onStore rt) s = s.writes rt (effects.filterMap Effect.call) := by
  induction effects with
  | nil => intro s; rfl
  | cons e effects ih =>
      intro s
      rw [List.foldl_cons, ih, List.filterMap_cons, Effect.onStore]
      cases e.call <;> rfl

end Server

end Daikon
