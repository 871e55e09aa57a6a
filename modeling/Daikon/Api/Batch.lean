/-
# Daikon.Api.Batch -- pipelines and Lua scripts (`api.rs`, `lua.rs`)

A pipeline logs the entries of all its commands before it makes the first store call. A script is
taken as the list of the mutating bindings it calls, in order, and the outcome of its evaluation:
the interpreter itself is a library. Its bindings log and apply call by call, under one lock.

So a store call that fails in a pipeline leaves its entry, and a crash between the phases finds a log that
is ahead of the store. A command whose append failed is not carried out, and its result carries the error;
the answers come in the order of the commands. The read commands of a pipeline log nothing and are answered
from the store as it is at their turn.

A binding of a script that fails stops at its own error; whether the script goes on is a matter of the
script, so the list of calls is what it came to make. `hset` and `hdel` are the two bindings that log
nothing. A script that asks for its own writes through the read bindings is in `Daikon.Api.Script`, where a
script is a program and not a list.
-/
import Daikon.Api.Server

namespace Daikon

/-! ## Pipelines -/

/-- `MAX_PIPELINE_COMMANDS`. A longer batch is refused as a whole. -/
def maxPipelineCommands : Nat := 1000

/-- A command of a pipeline, with its fields as the body has them. -/
inductive PipelineCommand where
  | get (key : String)
  | set (key value : String) (ttlSecs : Option Nat)
  | delete (key : String)
  | incr (key : String)
  | decr (key : String)
  | incrBy (key : String) (amount : Int64)
  | append (key value : String)
  | getSet (key value : String)
  | exists_ (key : String)
  | mGet (keys : List String)
  | lPush (key : String) (values : List String)
  | rPush (key : String) (values : List String)
  | lPop (key : String)
  | rPop (key : String)
  | lRange (key : String) (start stop : Option Int)
  | lLen (key : String)

/-- The result of one command. `status` is `ok` or `error`. -/
structure PipelineResult where
  status : String
  value : Option Json := none
  error : Option String := none

/-- The operation that phase 1 logs; the read-only commands log none. -/
def PipelineCommand.logged : PipelineCommand → Option WalOperation
  | set key value ttlSecs => some (.set key value ttlSecs)
  | delete key => some (.delete key)
  | incr key => some (.incr key)
  | decr key => some (.decr key)
  | incrBy key amount => some (.incrBy key amount)
  | append key value => some (.append key value)
  | getSet key value => some (.getSet key value)
  | lPush key values => some (.lPush key values)
  | rPush key values => some (.rPush key values)
  | lPop key => some (.lPop key)
  | rPop key => some (.rPop key)
  | get _ | exists_ _ | mGet _ | lRange _ _ _ | lLen _ => none

namespace PipelineResult

/-- `PipelineResult::ok`, with the value if the command has one. -/
def ok (value : Option Json) : PipelineResult := { status := "ok", value }

/-- `PipelineResult::error`. -/
def failed (error : String) : PipelineResult := { status := "error", error := some error }

/-- The result of a store call. -/
def ofResult {α : Type} (value : α → Option Json) (r : Except KvStoreError α × KvStore) :
    PipelineResult × KvStore :=
  match r.1 with
  | .ok a => (ok (value a), r.2)
  | .error e => (failed e.toString, r.2)

end PipelineResult

namespace Server

/-- Phase 1: append the entries, and note the error of each append that fails. -/
def batchWal (io : Io) : Nat → List PipelineCommand → Server → List (Option String) × Server
  | _, [], srv => ([], srv)
  | idx, cmd :: cmds, srv =>
      match cmd.logged with
      | none =>
          let rest := batchWal io (idx + 1) cmds srv
          (none :: rest.1, rest.2)
      | some operation =>
          -- a failed append does not stop the appends after it
          match srv.append io idx operation with
          | (.error e, srv) =>
              let rest := batchWal io (idx + 1) cmds srv
              (some e.toString :: rest.1, rest.2)
          | (.ok (), srv) =>
              let rest := batchWal io (idx + 1) cmds srv
              (none :: rest.1, rest.2)

end Server

/-- One command of phase 2 whose entry was logged, or that logs none. -/
def PipelineCommand.run (rt : Runtime) (now : Nat) (store : KvStore) :
    PipelineCommand → PipelineResult × KvStore
  | get key => (.ok ((store.get now key).map fun v => .str (v.toString rt)), store)
  | set key value (some ttl) =>
      PipelineResult.ofResult (fun _ => none) (store.setWithTtl now key (.str value) ttl)
  | set key value none => PipelineResult.ofResult (fun _ => none) (store.set now key (.str value))
  | delete key =>
      let r := store.delete now key
      (.ok (some (.bool r.1.isSome)), r.2)
  | incr key => PipelineResult.ofResult (fun i => some (.int i.toInt)) (store.incr key)
  | decr key => PipelineResult.ofResult (fun i => some (.int i.toInt)) (store.decr key)
  | incrBy key amount => PipelineResult.ofResult (fun i => some (.int i.toInt)) (store.incrby key amount)
  | append key value => PipelineResult.ofResult (fun len : Nat => some (.int len)) (store.append now key value)
  | getSet key value =>
      PipelineResult.ofResult (fun old => old.map fun v => .str (v.toString rt))
        (store.getset now key (.str value))
  | exists_ key => (.ok (some (.bool (store.exists_ now key))), store)
  | mGet keys =>
      (.ok (some (.arr ((store.mget now keys).map fun v => .ofOption (v.map (Value.toString rt))))),
        store)
  | lPush key values => PipelineResult.ofResult (fun len : Nat => some (.int len)) (store.lpush key values)
  | rPush key values => PipelineResult.ofResult (fun len : Nat => some (.int len)) (store.rpush key values)
  | lPop key => PipelineResult.ofResult (Option.map .str) (store.lpop key)
  | rPop key => PipelineResult.ofResult (Option.map .str) (store.rpop key)
  | lRange key start stop =>
      PipelineResult.ofResult (fun values => some (.arr (values.map .str)))
        (store.lrange now key (start.getD 0) (stop.getD (-1)), store)
  | lLen key => PipelineResult.ofResult (fun len : Nat => some (.int len)) (store.llen now key, store)

/-- One command of phase 2: a command whose append failed is reported and not carried out. -/
def PipelineCommand.execute (rt : Runtime) (now : Nat) (walErr : Option String) (store : KvStore)
    (cmd : PipelineCommand) : PipelineResult × KvStore :=
  match walErr with
  | some e => (.failed s!"WAL error: {e}", store)
  | none => cmd.run rt now store

/-- Phase 2: the store calls, under one lock. -/
def executeAll (rt : Runtime) (io : Io) :
    Nat → List (PipelineCommand × Option String) → KvStore → List PipelineResult × KvStore
  | _, [], store => ([], store)
  | idx, (cmd, walErr) :: rest, store =>
      let r := cmd.execute rt (io.now idx) walErr store
      let rest := executeAll rt io (idx + 1) rest r.2
      (r.1 :: rest.1, rest.2)

/-- The JSON of a result; absent members are left out. -/
def PipelineResult.toJson (r : PipelineResult) : Json :=
  .obj ([("status", .str r.status)] ++ (r.value.map fun v => ("value", v)).toList ++
    (r.error.map fun e => ("error", .str e)).toList)

namespace Server

/-- `POST /pipeline`. A command that fails does not stop the others, and the answer has one result for each,
in their order. -/
def pipelineExec (rt : Runtime) (srv : Server) (io : Io) (commands : List PipelineCommand) :
    Response × Server :=
  if commands.isEmpty then
    (⟨400, .text "Pipeline must contain at least one command"⟩, srv)
  else if commands.length > maxPipelineCommands then
    (⟨413, .text s!"Pipeline exceeds maximum of {maxPipelineCommands} commands"⟩, srv)
  else
    let logged := batchWal io 0 commands srv
    let r := executeAll rt io 0 (commands.zip logged.1) logged.2.store
    (⟨200, .json (.obj [("results", .arr (r.1.map PipelineResult.toJson))])⟩,
      { logged.2 with store := r.2 }.publishKeyspaceEvents)

end Server

/-! ## Lua -/

/-- A call of one of the mutating bindings. -/
inductive LuaCall where
  | set (key value : String)
  | setex (key value : String) (ttlSecs : Nat)
  | delete (key : String)
  | incr (key : String)
  | hset (key field value : String)
  | hdel (key field : String)

/-- A script as far as the store and the log see it. -/
structure LuaScript where
  text : String
  calls : List LuaCall
  /-- The output, or the error that ended the evaluation. -/
  outcome : Except String String

/-- The JSON text that `set` and `setex` log for a value. -/
def luaValueJson (rt : Runtime) (value : String) : String :=
  match rt.valueToJson (.str value) with
  | .ok json => json
  | .error _ => "\"" ++ value ++ "\""

/-- The operation a binding logs; `hset` and `hdel` log none. -/
def LuaCall.logged (rt : Runtime) : LuaCall → Option WalOperation
  | set key value => some (.set key (luaValueJson rt value) none)
  | setex key value ttlSecs => some (.set key (luaValueJson rt value) (some ttlSecs))
  | delete key => some (.delete key)
  | incr key => some (.incr key)
  | hset _ _ _ | hdel _ _ => none

/-- The store call of a binding. -/
def LuaCall.run (now : Nat) (store : KvStore) : LuaCall → KvStore
  | set key value => (store.set now key (.str value)).2
  | setex key value ttlSecs => (store.setWithTtl now key (.str value) ttlSecs).2
  | delete key => (store.delete now key).2
  | incr key => (store.incr key).2
  | hset key field value => (store.hset key ((∅ : Fields).insert field value)).2
  | hdel key field => (store.hdel key [field]).2

namespace Server

/-- A binding: log first; where the append fails the store call is not made. -/
def luaCall (rt : Runtime) (srv : Server) (io : Io) (n : Nat) (call : LuaCall) : Server :=
  match call.logged rt with
  | none => { srv with store := call.run (io.now n) srv.store }
  | some operation =>
      match srv.append io n operation with
      | (.error _, srv) => srv
      | (.ok (), srv) => { srv with store := call.run (io.now n) srv.store }

/-- The bindings of a script in turn, from the n-th on. An error in one is not the end of the others here:
how far a script comes is in its list of calls. -/
def luaCalls (rt : Runtime) (io : Io) : Nat → List LuaCall → Server → Server
  | _, [], srv => srv
  | n, call :: calls, srv => luaCalls rt io (n + 1) calls (luaCall rt srv io n call)

/-- `POST /lua/exec`. A script may be switched off, or too long; else it runs to its end under the store's
lock. -/
def luaExec (rt : Runtime) (srv : Server) (io : Io) (script : LuaScript) : Response × Server :=
  let enabled := srv.runtime.elim true ApiRuntimeConfig.luaEnabled
  let tooLong := srv.runtime.bind fun cfg =>
    if script.text.utf8ByteSize > cfg.maxLuaScriptBytes then some cfg.maxLuaScriptBytes else none
  if !enabled then (⟨403, .text "Lua execution is disabled"⟩, srv)
  else
    match tooLong with
    | some max => (⟨413, .text s!"Lua script exceeds max size of {max} bytes"⟩, srv)
    | none =>
        if srv.store.inTransaction then
          (⟨409, .text "Cannot execute Lua while a transaction is in progress"⟩, srv)
        else
          -- the bindings have run by the time the outcome is known; nothing is undone
          let ran := luaCalls rt io 0 script.calls srv
          match script.outcome with
          | .ok output => (⟨200, .json (.obj [("output", .str output)])⟩, ran)
          | .error e =>
              let failed := KvStoreError.operationFailed s!"Lua setup failed: Lua execution failed: {e}"
              (⟨400, .text failed.toString⟩, ran)

end Server

end Daikon
