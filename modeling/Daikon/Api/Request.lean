/-
# Daikon.Api.Request -- requests, and what each leaves in the store and in the log

`handle` sends a request to its handler. Most single-command handlers append one operation and then
make one store call: `loggedWrite` names the two, and `handle_loggedWrite` says that this is all
they do to the store and the log. A request that is turned away at any point before the append
leaves both alone.

A request is a constructor with the arguments that its handler is given, so a property of every write
request is a property of every constructor. `dispatch` comes after the check of the API key, and `handle` is
the check and then `dispatch`; `serve` forgets the answer, for runs.

`loggedWrite` depends on the request alone, with what the runtime can write as text. A `set_value` whose
time to live is zero, or whose value has no JSON, is turned away before its append and so has none.
`Settled` is the store after the call up to the events that the handler has published: it is what lets the
modules about runs forget which handlers publish.
-/
import Daikon.Api.Handlers
import Daikon.Api.Batch

namespace Daikon

/-- The write requests of the HTTP interface. -/
inductive Request where
  | setValue (key value : String) (ttlSecs : Option Nat)
  | deleteValue (key : String)
  | incrValue (key : String)
  | decrValue (key : String)
  | incrbyValue (key : String) (amount : Int64)
  | appendValue (key value : String)
  | getsetValue (key value : String)
  | msetValues (pairs : List (String × String))
  | setExpire (key : String) (ttlSecs : Nat)
  | persistKey (key : String)
  | listLpush (key : String) (values : List String)
  | listRpush (key : String) (values : List String)
  | listLpop (key : String)
  | listRpop (key : String)
  | hashHset (key : String) (fields : Fields)
  | hashHdel (key : String) (fields : List String)
  | hashHincrby (key field : String) (amount : Int64)
  | hashHincrbyfloat (key field : String) (amount : Float)
  | pipelineExec (commands : List PipelineCommand)
  | luaExec (script : LuaScript)
  | cleanupExpired
  | multi
  | exec
  | discard
  | hllPfadd (key : String) (values : List String)
  | hllPfreserve (key : String) (precision : Nat)
  | hllPfmerge (destination : String) (sources : List String)
  | setKeyspaceConfig (enabled : Bool)
  | pitrRecoverToTimestamp (target : Nat) (recovered : Except KvStoreError KvStore)
  | pitrRecoverLatestSnapshot (recovered : Except KvStoreError KvStore)

namespace Server

/-- The handler of a request, past the API key check. -/
def dispatch (rt : Runtime) (srv : Server) (io : Io) : Request → Response × Server
  | .setValue key value ttlSecs => srv.setValue rt io key value ttlSecs
  | .deleteValue key => srv.deleteValue io key
  | .incrValue key => srv.incrValue io key
  | .decrValue key => srv.decrValue io key
  | .incrbyValue key amount => srv.incrbyValue io key amount
  | .appendValue key value => srv.appendValue io key value
  | .getsetValue key value => srv.getsetValue rt io key value
  | .msetValues pairs => srv.msetValues io pairs
  | .setExpire key ttlSecs => srv.setExpire io key ttlSecs
  | .persistKey key => srv.persistKey io key
  | .listLpush key values => srv.listLpush io key values
  | .listRpush key values => srv.listRpush io key values
  | .listLpop key => srv.listLpop io key
  | .listRpop key => srv.listRpop io key
  | .hashHset key fields => srv.hashHset io key fields
  | .hashHdel key fields => srv.hashHdel io key fields
  | .hashHincrby key field amount => srv.hashHincrby io key field amount
  | .hashHincrbyfloat key field amount => srv.hashHincrbyfloat rt io key field amount
  | .pipelineExec commands => srv.pipelineExec rt io commands
  | .luaExec script => srv.luaExec rt io script
  | .cleanupExpired => srv.cleanupExpired io
  | .multi => srv.multi
  | .exec => srv.exec
  | .discard => srv.discard
  | .hllPfadd key values => srv.hllPfadd rt key values
  | .hllPfreserve key precision => srv.hllPfreserve key precision
  | .hllPfmerge destination sources => srv.hllPfmerge destination sources
  | .setKeyspaceConfig enabled => srv.setKeyspaceConfig enabled
  | .pitrRecoverToTimestamp target recovered => srv.pitrRecoverToTimestamp target recovered
  | .pitrRecoverLatestSnapshot recovered => srv.pitrRecoverLatestSnapshot recovered

/-- Serve one request. -/
def handle (rt : Runtime) (srv : Server) (io : Io) (req : Request) : Response × Server :=
  match requireApiKey io.headers srv.runtime with
  | some refusal => (refusal, srv)
  | none => dispatch rt srv io req

/-- A run of the server serves requests one after another, each with its own environment. -/
def serve (rt : Runtime) (srv : Server) (r : Io × Request) : Server := (srv.handle rt r.1 r.2).2

end Server

/-! ## Log first, then one store call -/

/-- The operation a log-first handler appends and the store call it makes; `none` for the other
handlers, and for a request that its handler turns away before the append. -/
def Request.loggedWrite (rt : Runtime) : Request → Option (WalOperation × Write)
  | setValue key value ttlSecs =>
      if ttlSecs = some 0 then none
      else
        match rt.valueToJson (.str value) with
        | .error _ => none
        | .ok json => some (.set key json ttlSecs, (WalOperation.set key value ttlSecs).raw)
  | deleteValue key => some (.delete key, .delete key)
  | incrValue key => some (.incr key, .incr key)
  | decrValue key => some (.decr key, .decr key)
  | incrbyValue key amount => some (.incrBy key amount, .incrby key amount)
  | appendValue key value => some (.append key value, .append key value)
  | getsetValue key value => some (.getSet key value, .getset key (.str value))
  | msetValues pairs => some (.mset pairs, .mset pairs)
  | setExpire key ttlSecs =>
      if ttlSecs = 0 then none else some (.expire key ttlSecs, .expire key ttlSecs)
  | persistKey key => some (.persist key, .persist key)
  | listLpush key values => some (.lPush key values, .lpush key values)
  | listRpush key values => some (.rPush key values, .rpush key values)
  | listLpop key => some (.lPop key, .lpop key)
  | listRpop key => some (.rPop key, .rpop key)
  | hashHset key fields => some (.hSet key fields, .hset key fields)
  | hashHdel key fields => some (.hDel key fields, .hdel key fields)
  | hashHincrby key field amount => some (.hIncrBy key field amount, .hincrby key field amount)
  | _ => none

/-- The handlers that publish the events of their store calls. -/
def Request.publishes : Request → Bool
  | setValue _ _ _ | deleteValue _ | setExpire _ _ | persistKey _ | pipelineExec _
  | cleanupExpired => true
  | _ => false

/-- A `set_value` that is logged has a time to live that is not zero, and a value that serializes. -/
theorem Request.loggedWrite_setValue {rt : Runtime} {key value : String} {ttl : Option Nat}
    {op : WalOperation} {w : Write} (h : (setValue key value ttl).loggedWrite rt = some (op, w)) :
    ttl ≠ some 0 ∧ ∃ json, rt.valueToJson (.str value) = .ok json ∧ op = .set key json ttl ∧
      w = (WalOperation.set key value ttl).raw := by
  simp only [loggedWrite] at h
  split at h
  · cases h
  · next httl =>
      split at h
      · cases h
      · next json hjson =>
          cases h
          exact ⟨httl, json, hjson, rfl, rfl⟩

theorem Request.loggedWrite_setExpire {rt : Runtime} {key : String} {ttl : Nat} {op : WalOperation}
    {w : Write} (h : (setExpire key ttl).loggedWrite rt = some (op, w)) :
    ttl ≠ 0 ∧ op = .expire key ttl ∧ w = .expire key ttl := by
  simp only [loggedWrite] at h
  split at h
  · cases h
  · next httl =>
      cases h
      exact ⟨httl, rfl, rfl⟩

namespace Server

/-- Up to the events it may have published, the store after a call. -/
def Settled (s t : KvStore) : Prop := ∃ pending, t = { s with pendingKeyspaceEvents := pending }

theorem Settled.refl (s : KvStore) : Settled s s := ⟨s.pendingKeyspaceEvents, rfl⟩

theorem Settled.contents {s t : KvStore} (h : Settled s t) : t.contents = s.contents := by
  obtain ⟨pending, rfl⟩ := h
  rfl

theorem Settled.quiet {s t : KvStore} (h : Settled s t) : t.quiet = s.quiet := by
  obtain ⟨pending, rfl⟩ := h
  rfl

theorem Settled.stats {s t : KvStore} (h : Settled s t) : t.stats = s.stats := by
  obtain ⟨pending, rfl⟩ := h
  rfl

theorem Settled.config {s t : KvStore} (h : Settled s t) : t.config = s.config := by
  obtain ⟨pending, rfl⟩ := h
  rfl

theorem Settled.inTransaction {s t : KvStore} (h : Settled s t) :
    t.inTransaction = s.inTransaction := by
  obtain ⟨pending, rfl⟩ := h
  rfl

theorem logFirst_failed {srv : Server} {io : Io} {failure : String} {op : WalOperation}
    {publish : Bool} {call : KvStore → Response × KvStore} {e : KvStoreError}
    (hdisk : io.disk 0 = some e) :
    srv.logFirst io failure op publish call = (⟨500, .text (failure ++ e.toString)⟩, srv) := by
  simp only [logFirst, append, hdisk]

theorem logFirst_wal {srv : Server} {io : Io} {failure : String} {op : WalOperation}
    {publish : Bool} {call : KvStore → Response × KvStore} (hdisk : io.disk 0 = none) :
    (srv.logFirst io failure op publish call).2.wal = srv.wal ++ [WalEntry.new (io.loggedAt 0) op] := by
  simp only [logFirst, append, hdisk]
  split <;> rfl

theorem logFirst_store {srv : Server} {io : Io} {failure : String} {op : WalOperation}
    {publish : Bool} {call : KvStore → Response × KvStore} (hdisk : io.disk 0 = none) :
    Settled (call srv.store).2 (srv.logFirst io failure op publish call).2.store := by
  simp only [logFirst, append, hdisk]
  split
  · exact ⟨[], rfl⟩
  · exact Settled.refl _

theorem logFirst_response {srv : Server} {io : Io} {failure : String} {op : WalOperation}
    {publish : Bool} {call : KvStore → Response × KvStore} (hdisk : io.disk 0 = none) :
    (srv.logFirst io failure op publish call).1 = (call srv.store).1 := by
  simp only [logFirst, append, hdisk]

@[simp] theorem ofResult_snd {α : Type} (body : α → Body) (r : Except KvStoreError α × KvStore) :
    (Response.ofResult body r).2 = r.2 := by
  unfold Response.ofResult
  split <;> rfl

@[simp] theorem expiryAnswer_snd (r : Bool × KvStore) : (expiryAnswer r).2 = r.2 := by
  obtain ⟨b, s⟩ := r
  cases b <;> rfl

theorem transactionAnswer_snd {α : Type} (srv : Server) (body : α → Json)
    (a : Except KvStoreError α × KvStore) :
    (srv.transactionAnswer body a).2 = { srv with store := a.2 } := by
  unfold transactionAnswer
  split <;> rfl

theorem ofResult_status {α : Type} {body : α → Body} {r : Except KvStoreError α × KvStore}
    (h : (Response.ofResult body r).1.status = 200) : ∃ a, r.1 = .ok a := by
  unfold Response.ofResult at h
  split at h
  · next a ha => exact ⟨a, ha⟩
  · exact absurd h (by simp)

/-- A handler that appends this operation first and then makes this call. -/
def LogsFirst (rt : Runtime) (srv : Server) (io : Io) (op : WalOperation) (w : Write)
    (answer : Response × Server) : Prop :=
  ∃ failure publish call, answer = srv.logFirst io failure op publish call ∧
    (call srv.store).2 = (srv.store.write rt (io.now 0) w).2

/-- The log-first handlers are that, and only some of them publish. -/
theorem dispatch_logFirst {rt : Runtime} (srv : Server) (io : Io) {req : Request}
    {op : WalOperation} {w : Write} (h : req.loggedWrite rt = some (op, w)) :
    ∃ failure call, srv.dispatch rt io req = srv.logFirst io failure op req.publishes call ∧
      (call srv.store).2 = (srv.store.write rt (io.now 0) w).2 := by
  cases req with
  | setValue key value ttl =>
      obtain ⟨httl, json, hjson, rfl, rfl⟩ := Request.loggedWrite_setValue h
      simp only [dispatch, setValue, if_neg httl, hjson]
      refine ⟨_, _, rfl, ?_⟩
      rw [ofResult_snd]
      cases ttl <;> rfl
  | deleteValue key =>
      cases h
      simp only [dispatch, deleteValue]
      refine ⟨_, _, rfl, ?_⟩
      rcases hd : srv.store.delete (io.now 0) key with ⟨_ | _, s⟩ <;>
        simp only [KvStore.write, hd]
  | setExpire key ttl =>
      obtain ⟨httl, rfl, rfl⟩ := Request.loggedWrite_setExpire h
      simp only [dispatch, setExpire, if_neg httl]
      exact ⟨_, _, rfl, expiryAnswer_snd _⟩
  | persistKey key =>
      cases h
      simp only [dispatch, persistKey]
      exact ⟨_, _, rfl, expiryAnswer_snd _⟩
  | hashHincrbyfloat _ _ _ | pipelineExec _ | luaExec _ | cleanupExpired | multi | exec | discard
  | hllPfadd _ _ | hllPfreserve _ _ | hllPfmerge _ _ | setKeyspaceConfig _
  | pitrRecoverToTimestamp _ _ | pitrRecoverLatestSnapshot _ => cases h
  | _ =>
      cases h
      simp only [dispatch, incrValue, decrValue, incrbyValue, appendValue, getsetValue, msetValues,
        listLpush, listRpush, listLpop, listRpop, hashHset, hashHdel, hashHincrby]
      exact ⟨_, _, rfl, ofResult_snd _ _⟩

theorem dispatch_loggedWrite {rt : Runtime} (srv : Server) (io : Io) {req : Request}
    {op : WalOperation} {w : Write} (h : req.loggedWrite rt = some (op, w)) :
    LogsFirst rt srv io op w (srv.dispatch rt io req) := by
  obtain ⟨failure, call, hdispatch, hcall⟩ := dispatch_logFirst srv io h
  exact ⟨failure, req.publishes, call, hdispatch, hcall⟩

/-- A log-first request whose append succeeds: one more entry, and the store after its call. -/
theorem handle_loggedWrite {rt : Runtime} {srv : Server} {io : Io} {req : Request}
    {op : WalOperation} {w : Write} (h : req.loggedWrite rt = some (op, w))
    (hkey : requireApiKey io.headers srv.runtime = none) (hdisk : io.disk 0 = none) :
    (srv.handle rt io req).2.wal = srv.wal ++ [WalEntry.new (io.loggedAt 0) op] ∧
      Settled (srv.store.write rt (io.now 0) w).2 (srv.handle rt io req).2.store := by
  obtain ⟨failure, publish, call, hdispatch, hcall⟩ :=
    dispatch_loggedWrite srv io h
  simp only [handle, hkey, hdispatch]
  refine ⟨logFirst_wal hdisk, ?_⟩
  rw [← hcall]
  exact logFirst_store hdisk

/-- An admitted `set_value` logs the JSON text of its value. -/
theorem setValue_wal {rt : Runtime} {srv : Server} {io : Io} {key value json : String}
    (hjson : rt.valueToJson (.str value) = .ok json)
    (hkey : requireApiKey io.headers srv.runtime = none) (hdisk : io.disk 0 = none) :
    (srv.serve rt (io, .setValue key value none)).wal
      = srv.wal ++ [WalEntry.new (io.loggedAt 0) (.set key json none)] := by
  have hop : (Request.setValue key value none).loggedWrite rt
      = some (.set key json none, .set key (.str value)) := by
    simp [Request.loggedWrite, hjson, WalOperation.raw]
  exact (handle_loggedWrite hop hkey hdisk).1

/-- A log-first request whose append fails changes nothing. -/
theorem handle_loggedWrite_failed {rt : Runtime} {srv : Server} {io : Io} {req : Request}
    {op : WalOperation} {w : Write} {e : KvStoreError} (h : req.loggedWrite rt = some (op, w))
    (hkey : requireApiKey io.headers srv.runtime = none) (hdisk : io.disk 0 = some e) :
    (srv.handle rt io req).2 = srv := by
  obtain ⟨failure, publish, call, hdispatch, -⟩ := dispatch_loggedWrite srv io h
  simp only [handle, hkey, hdispatch, logFirst_failed hdisk]

/-- A request without the API key changes nothing. -/
theorem handle_unauthorized {rt : Runtime} {srv : Server} {io : Io} {req : Request}
    {refusal : Response} (h : requireApiKey io.headers srv.runtime = some refusal) :
    srv.handle rt io req = (refusal, srv) := by
  simp only [handle, h]

end Server

end Daikon
