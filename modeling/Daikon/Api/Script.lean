/-
# Daikon.Api.Script -- scripts and their bindings (`lua.rs`)

The interpreter is a library; what a script is here is what it does with the bindings, call by call: a
`Script` makes a call, goes on with the answer, and ends with the values that it returns or with the error
that ended it. `execute_script` answers the calls over a store and, for the server, a log. What `lua_exec`
then leaves is what `Daikon.Api.Batch` has for the calls that the script came to make
(`luaExecScript_eq`), so what is proved there of lists of calls is proved of scripts.

A script is a tree: a call, and for every answer the rest. Its depth is not bounded and it need not be a
program of any language, so what holds of every `Script` holds of what any interpreter does with the
bindings. The bindings are those of the source, with the texts of their errors and with the log first where
there is one; `hset` and `hdel` log nothing, and the command line runs scripts without a log.

Three results: what a script leaves in the store and the log is what its calls leave (`luaExecScript_eq`),
the output is its messages and its values or the one error (`script_output`), and a script whose calls have
requests leaves what these requests leave (`script_equals_requests`). A `setex` with a time to live of zero
has no request that would be accepted, and is left out of the third.
-/
import Daikon.Api.Pipeline
import Daikon.Lib.Program
import Daikon.Store.Reads
import Mathlib.Data.List.Induction

namespace Daikon

/-- The functions that a script can call. -/
inductive Binding where
  | get (key : String)
  | set (key value : String)
  | setex (key value : String) (ttlSecs : Nat)
  | delete (key : String)
  | incr (key : String)
  | exists_ (key : String)
  | ttl (key : String)
  | pttl (key : String)
  | hset (key field value : String)
  | hget (key field : String)
  | hdel (key field : String)
  | hgetall (key : String)
  | print (message : String)

/-- What a binding hands back to the script. -/
inductive BindingAnswer where
  /-- A string, or nil. -/
  | text (s : Option String)
  | flag (b : Bool)
  | integer (i : Int)
  | table (fields : Fields)
  | nothing
  /-- The error that is raised in the script. -/
  | error (e : String)

/-- A value that a script returns. -/
inductive LuaValue where
  | nil
  | boolean (b : Bool)
  | integer (i : Int64)
  | number (x : Float)
  /-- A string, with its text if it is UTF-8. -/
  | string (text : Option String)
  | other

/-- A script: the calls it makes, and the values it returns or the text of the error that ends it. -/
abbrev Script := Lib.Program Binding BindingAnswer (Except String (List LuaValue))

/-- What the environment decides while a script runs; the calls that read the clock and change nothing are
counted by themselves. -/
structure ScriptIo extends Io where
  /-- The clock at the n-th binding that reads. -/
  readAt : Nat → Nat

/-- What the bindings of a script share while it runs. -/
structure ScriptState where
  store : KvStore
  /-- The log, if the script has one. -/
  wal : Option (List WalEntry)
  output : String := ""
  /-- The calls made so far that change the store, and those that read it. -/
  mutations : Nat := 0
  reads : Nat := 0

namespace ScriptState

section

variable (io : ScriptIo) (st : ScriptState)

/-- The answer of a read. -/
def ask (answer : Nat → KvStore → BindingAnswer) : BindingAnswer × ScriptState :=
  (answer (io.readAt st.reads) st.store, { st with reads := st.reads + 1 })

/-- The append of a binding, where there is a log. -/
def append (operation : WalOperation) : Except KvStoreError Unit × ScriptState :=
  match st.wal with
  | none => (.ok (), st)
  | some log =>
      match io.disk st.mutations with
      | some e => (.error e, st)
      | none => (.ok (), { st with wal := some (log ++ [WalEntry.new (io.loggedAt st.mutations) operation]) })

/-- The store call of a binding. -/
def perform (call : Nat → KvStore → BindingAnswer × KvStore) : BindingAnswer × ScriptState :=
  let r := call (io.now st.mutations) st.store
  (r.1, { st with store := r.2, mutations := st.mutations + 1 })

/-- Log first; the store call is not made where the append fails. -/
def logFirst (operation : WalOperation) (call : Nat → KvStore → BindingAnswer × KvStore) :
    BindingAnswer × ScriptState :=
  match st.append io operation with
  | (.error e, st) => (.error e.toString, { st with mutations := st.mutations + 1 })
  | (.ok (), st) => st.perform io call

end

/-- A binding gives the value of its store call, or raises its error. -/
def raise {α : Type} (answer : α → BindingAnswer) (r : Except KvStoreError α × KvStore) :
    BindingAnswer × KvStore :=
  match r.1 with
  | .ok a => (answer a, r.2)
  | .error e => (.error e.toString, r.2)

/-- A message begins a new line, unless nothing was printed before. -/
def print (message output : String) : String :=
  if output = "" then message else output ++ "\n" ++ message

/-- Answer a call of a script. -/
def binding (rt : Runtime) (io : ScriptIo) (st : ScriptState) : Binding → BindingAnswer × ScriptState
  | .get key => st.ask io fun now store => .text ((store.get now key).map (Value.toString rt))
  | .set key value =>
      st.logFirst io (.set key (luaValueJson rt value) none) fun now store =>
        raise (fun _ => .flag true) (store.set now key (.str value))
  | .setex key value ttlSecs =>
      st.logFirst io (.set key (luaValueJson rt value) (some ttlSecs)) fun now store =>
        raise (fun _ => .flag true) (store.setWithTtl now key (.str value) ttlSecs)
  | .delete key =>
      st.logFirst io (.delete key) fun now store =>
        let r := store.delete now key
        (.flag r.1.isSome, r.2)
  | .incr key =>
      st.logFirst io (.incr key) fun _ store => raise (fun i => .integer i.toInt) (store.incr key)
  | .exists_ key => st.ask io fun now store => .flag (store.exists_ now key)
  | .ttl key => st.ask io fun now store => .integer (store.ttlSeconds now key)
  | .pttl key => st.ask io fun now store => .integer (store.pttlMillis now key)
  -- the two hash bindings have no log entry, and their errors are false
  | .hset key field value =>
      st.perform io fun _ store =>
        let r := store.hset key ((∅ : Fields).insert field value)
        (.flag r.1.isOk, r.2)
  | .hget key field => st.ask io fun now store => .text (store.hget now key field).toOption.join
  | .hdel key field =>
      st.perform io fun _ store =>
        let r := store.hdel key [field]
        (.flag (r.1.toOption.any (· > 0)), r.2)
  | .hgetall key => st.ask io fun now store => .table ((store.hgetall now key).toOption.getD ∅)
  | .print message => (.nothing, { st with output := print message st.output })

end ScriptState

/-- `lua_value_to_string`: the text of a returned value. One that is no number, text or truth value is not
shown. -/
def luaValueToString (rt : Runtime) : LuaValue → String
  | .nil => "nil"
  | .boolean b => toString b
  | .integer i => toString i
  | .number x => rt.f64ToString x
  | .string (some text) => text
  | .string none => "<binary>"
  | .other => "<complex>"

/-- The output of a script: what it printed, and a line with the values it returned. -/
def scriptOutput (rt : Runtime) (printed : String) (result : List LuaValue) : String :=
  if result.isEmpty then printed
  else ScriptState.print (" ".intercalate (result.map (luaValueToString rt))) printed

/-- `execute_script`. The text of the error that ends a script replaces all that it printed, while what its
calls have done stays. -/
def executeScript (rt : Runtime) (io : ScriptIo) (store : KvStore) (wal : Option (List WalEntry))
    (script : Script) : Except KvStoreError String × ScriptState :=
  let r := script.run (ScriptState.binding rt io) { store, wal }
  match r.1 with
  | .ok result => (.ok (scriptOutput rt r.2.output result), r.2)
  | .error e => (.error (.operationFailed s!"Lua setup failed: Lua execution failed: {e}"), r.2)

namespace Server

/-- `lua_exec`, with the script and its text. -/
def luaExecScript (rt : Runtime) (srv : Server) (io : ScriptIo) (text : String) (script : Script) :
    Response × Server :=
  let enabled := srv.runtime.elim true ApiRuntimeConfig.luaEnabled
  let tooLong := srv.runtime.bind fun cfg =>
    if text.utf8ByteSize > cfg.maxLuaScriptBytes then some cfg.maxLuaScriptBytes else none
  if !enabled then (⟨403, .text "Lua execution is disabled"⟩, srv)
  else
    match tooLong with
    | some max => (⟨413, .text s!"Lua script exceeds max size of {max} bytes"⟩, srv)
    | none =>
        if srv.store.inTransaction then
          (⟨409, .text "Cannot execute Lua while a transaction is in progress"⟩, srv)
        else
          let r := executeScript rt io srv.store (some srv.wal) script
          let ran := { srv with store := r.2.store, wal := r.2.wal.getD srv.wal }
          match r.1 with
          | .ok output => (⟨200, .json (.obj [("output", .str output)])⟩, ran)
          | .error e => (⟨400, .text e.toString⟩, ran)

end Server

/-! ## A script and the calls it makes -/

/-- The call of a binding that changes the store. -/
def Binding.mutation : Binding → Option LuaCall
  | set key value => some (.set key value)
  | setex key value ttlSecs => some (.setex key value ttlSecs)
  | delete key => some (.delete key)
  | incr key => some (.incr key)
  | hset key field value => some (.hset key field value)
  | hdel key field => some (.hdel key field)
  | _ => none

/-- The message of a binding that prints. -/
def Binding.message : Binding → Option String
  | print message => some message
  | _ => none

namespace Script

section

variable (rt : Runtime) (io : ScriptIo) (store : KvStore) (wal : Option (List WalEntry)) (script : Script)

/-- The bindings that the script calls. -/
def bindings : List Binding := script.trace (ScriptState.binding rt io) { store, wal }

/-- The changes that the script makes. -/
def calls : List LuaCall := (bindings rt io store wal script).filterMap Binding.mutation

/-- What the script returned, or the error that ended it. -/
def outcome : Except String (List LuaValue) :=
  (script.run (ScriptState.binding rt io) { store, wal }).1

/-- The script as a list of calls with an outcome. -/
def made (text : String) : LuaScript where
  text
  calls := calls rt io store wal script
  outcome := (outcome rt io store wal script).map (scriptOutput rt
    (script.run (ScriptState.binding rt io) { store, wal }).2.output)

end

end Script

namespace ScriptState

/-- A binding that only reads or prints. -/
theorem binding_unmutating (rt : Runtime) (io : ScriptIo) (st : ScriptState) {b : Binding}
    (h : b.mutation = none) :
    (st.binding rt io b).2.store = st.store ∧ (st.binding rt io b).2.wal = st.wal ∧
      (st.binding rt io b).2.mutations = st.mutations := by
  cases b with
  | get _ | exists_ _ | ttl _ | pttl _ | hget _ _ | hgetall _ | print _ => exact ⟨rfl, rfl, rfl⟩
  | _ => cases h

theorem raise_snd {α : Type} (answer : α → BindingAnswer) (r : Except KvStoreError α × KvStore) :
    (raise answer r).2 = r.2 := by
  unfold raise
  split <;> rfl

/-- A binding that changes the store does so as the list of calls does. -/
theorem binding_mutation (rt : Runtime) (io : ScriptIo) {st : ScriptState} {srv : Server} {b : Binding}
    {call : LuaCall}
    (h : b.mutation = some call) (hstore : st.store = srv.store) (hwal : st.wal = some srv.wal) :
    (st.binding rt io b).2.store = (Server.luaCall rt srv io.toIo st.mutations call).store ∧
      (st.binding rt io b).2.wal = some (Server.luaCall rt srv io.toIo st.mutations call).wal ∧
      (st.binding rt io b).2.mutations = st.mutations + 1 := by
  have hlogged : ∀ (operation : WalOperation) (act : Nat → KvStore → BindingAnswer × KvStore),
      call.logged rt = some operation →
      (∀ store, (act (io.now st.mutations) store).2 = call.run (io.now st.mutations) store) →
      (st.logFirst io operation act).2.store = (Server.luaCall rt srv io.toIo st.mutations call).store ∧
        (st.logFirst io operation act).2.wal = some (Server.luaCall rt srv io.toIo st.mutations call).wal ∧
        (st.logFirst io operation act).2.mutations = st.mutations + 1 := by
    intro operation act hop hact
    unfold logFirst append Server.luaCall Server.append
    rw [hwal, hop]
    cases hdisk : io.disk st.mutations with
    | some e => exact ⟨hstore, hwal, rfl⟩
    | none =>
        refine ⟨?_, rfl, rfl⟩
        simp only [perform]
        rw [hact, hstore]
  cases b with
  | set key value =>
      cases h
      exact hlogged _ _ rfl fun store => raise_snd _ _
  | setex key value ttlSecs =>
      cases h
      exact hlogged _ _ rfl fun store => raise_snd _ _
  | delete key =>
      cases h
      exact hlogged _ _ rfl fun store => rfl
  | incr key =>
      cases h
      exact hlogged _ _ rfl fun store => raise_snd _ _
  | hset key field value =>
      cases h
      refine ⟨?_, hwal, rfl⟩
      simp only [binding, perform, hstore]
      rfl
  | hdel key field =>
      cases h
      refine ⟨?_, hwal, rfl⟩
      simp only [binding, perform, hstore]
      rfl
  | _ => cases h

theorem bindings_luaCalls (rt : Runtime) (io : ScriptIo) (bindings : List Binding) :
    ∀ (st : ScriptState) {srv : Server},
    st.store = srv.store → st.wal = some srv.wal →
      (bindings.foldl (fun st b => (st.binding rt io b).2) st).store
          = (Server.luaCalls rt io.toIo st.mutations (bindings.filterMap Binding.mutation) srv).store ∧
        (bindings.foldl (fun st b => (st.binding rt io b).2) st).wal
          = some (Server.luaCalls rt io.toIo st.mutations (bindings.filterMap Binding.mutation) srv).wal := by
  induction bindings with
  | nil => exact fun _ _ hstore hwal => ⟨hstore, hwal⟩
  | cons b bindings ih =>
      intro st srv hstore hwal
      cases hb : b.mutation with
      | none =>
          obtain ⟨hstore', hwal', hmutations⟩ := binding_unmutating rt io st hb
          have hrest := ih _ (hstore'.trans hstore) (hwal'.trans hwal)
          rw [hmutations] at hrest
          rw [List.filterMap_cons_none hb]
          exact hrest
      | some call =>
          obtain ⟨hstore', hwal', hmutations⟩ := binding_mutation rt io hb hstore hwal
          have hrest := ih _ hstore' hwal'
          rw [hmutations] at hrest
          rw [List.filterMap_cons_some hb]
          exact hrest

end ScriptState

/-- The store and the log after a script are those after its calls. -/
theorem executeScript_calls (rt : Runtime) (io : ScriptIo) (srv : Server) (script : Script) :
    { srv with
        store := (executeScript rt io srv.store (some srv.wal) script).2.store
        wal := (executeScript rt io srv.store (some srv.wal) script).2.wal.getD srv.wal }
      = Server.luaCalls rt io.toIo 0 (script.calls rt io srv.store (some srv.wal)) srv := by
  have hstate : (executeScript rt io srv.store (some srv.wal) script).2
      = (script.run (ScriptState.binding rt io) { store := srv.store, wal := some srv.wal }).2 := by
    unfold executeScript
    simp only
    split <;> rfl
  obtain ⟨hstore, hwal⟩ := ScriptState.bindings_luaCalls rt io
    (script.bindings rt io srv.store (some srv.wal)) { store := srv.store, wal := some srv.wal } rfl rfl
  rw [hstate, Lib.Program.run_snd, ← Script.bindings, hstore, hwal, ← Script.calls, Server.luaCalls_eq]
  rfl

/-- `lua_exec` of a script is that of its calls. -/
theorem Server.luaExecScript_eq (rt : Runtime) (srv : Server) (io : ScriptIo) (text : String)
    (script : Script) :
    srv.luaExecScript rt io text script
      = srv.luaExec rt io.toIo (script.made rt io srv.store (some srv.wal) text) := by
  unfold Server.luaExecScript Server.luaExec
  simp only [executeScript_calls]
  have houtcome : (executeScript rt io srv.store (some srv.wal) script).1
      = (script.made rt io srv.store (some srv.wal) text).outcome.mapError fun e =>
        .operationFailed s!"Lua setup failed: Lua execution failed: {e}" := by
    simp only [executeScript, Script.made, Script.outcome]
    rcases (script.run (ScriptState.binding rt io)
      { store := srv.store, wal := some srv.wal }).1 with e | result
    · rfl
    · rfl
  rw [houtcome]
  simp only [Script.made]
  cases (script.outcome rt io srv.store (some srv.wal)) <;> rfl

/-! ## The output -/

/-- Lines printed one after another; empty ones in front leave no trace. -/
theorem print_lines (lines : List String) :
    lines.foldl (fun output line => ScriptState.print line output) ""
      = "\n".intercalate (lines.dropWhile (· = "")) := by
  have hempty : ∀ {l : List String}, "\n".intercalate (l.dropWhile (· = "")) = "" →
      l.dropWhile (· = "") = [] := by
    intro l h
    rcases hl : l.dropWhile (· = "") with _ | ⟨line, rest⟩
    · rfl
    · have hline : line ≠ "" := by
        have hhead := List.head?_dropWhile_not (fun x : String => decide (x = "")) l
        rw [hl] at hhead
        simpa using hhead
      rw [hl] at h
      have htext := congrArg String.toList h
      cases rest with
      | nil => exact absurd (by simpa using h) hline
      | cons next rest =>
          rw [String.intercalate_cons_cons] at htext
          simp at htext
  induction lines using List.reverseRecOn with
  | nil => rfl
  | append_singleton lines line ih =>
      rw [List.foldl_append, ih, List.foldl_cons, List.foldl_nil, List.dropWhile_append]
      unfold ScriptState.print
      by_cases hnone : lines.dropWhile (· = "") = []
      · rw [hnone]
        by_cases hline : line = "" <;> simp [hline]
      · rw [if_neg fun h => hnone (hempty h), if_neg (by simpa using hnone),
          String.intercalate_append_of_ne_nil hnone (by simp), String.intercalate_singleton]

theorem ScriptState.binding_output (rt : Runtime) (io : ScriptIo) (st : ScriptState) (b : Binding) :
    (st.binding rt io b).2.output = b.message.elim st.output fun message => print message st.output := by
  have hlogged : ∀ operation act, (st.logFirst io operation act).2.output = st.output := by
    intro operation act
    unfold logFirst append
    cases st.wal with
    | none => rfl
    | some log => cases io.disk st.mutations <;> rfl
  cases b with
  | set _ _ | setex _ _ _ | delete _ | incr _ => exact hlogged _ _
  | _ => rfl

theorem ScriptState.bindings_output (rt : Runtime) (io : ScriptIo) (bindings : List Binding) :
    ∀ st : ScriptState, (bindings.foldl (fun st b => (st.binding rt io b).2) st).output
      = (bindings.filterMap Binding.message).foldl (fun output line => print line output) st.output := by
  induction bindings with
  | nil => exact fun _ => rfl
  | cons b bindings ih =>
      intro st
      rw [List.foldl_cons, ih, binding_output]
      cases hb : b.message with
      | none => rw [List.filterMap_cons_none hb, Option.elim_none]
      | some message => rw [List.filterMap_cons_some hb, Option.elim_some, List.foldl_cons]

/-- The lines of a script that ends with these values: its messages, and the values if there are any. -/
def Script.lines (rt : Runtime) (io : ScriptIo) (store : KvStore) (wal : Option (List WalEntry))
    (script : Script)
    (result : List LuaValue) : List String :=
  (script.bindings rt io store wal).filterMap Binding.message ++
    if result = [] then [] else [" ".intercalate (result.map (luaValueToString rt))]

/-- For every script, store and environment: the output is the lines, without the empty ones in front; or it
is the error that ended the script, and what was printed is lost. -/
theorem script_output (rt : Runtime) (io : ScriptIo) (store : KvStore) (wal : Option (List WalEntry))
    (script : Script) :
    (executeScript rt io store wal script).1
      = ((script.outcome rt io store wal).map fun result =>
          "\n".intercalate ((script.lines rt io store wal result).dropWhile (· = ""))).mapError
        fun e => .operationFailed s!"Lua setup failed: Lua execution failed: {e}" := by
  have hprinted : (script.run (ScriptState.binding rt io) { store, wal }).2.output
      = ((script.bindings rt io store wal).filterMap Binding.message).foldl
          (fun output line => ScriptState.print line output) "" := by
    rw [Lib.Program.run_snd, ScriptState.bindings_output]
    rfl
  unfold executeScript Script.outcome
  simp only
  rcases (script.run (ScriptState.binding rt io) { store, wal }).1 with e | result
  · rfl
  · simp only [Except.map, Except.mapError, Except.ok.injEq]
    rw [hprinted, ← print_lines, Script.lines, List.foldl_append, scriptOutput]
    cases result with
    | nil => rfl
    | cons value values => rfl

/-! ## Scripts and requests -/

/-- The request that does what the call does; the hash bindings log nothing, and a request with a time to live
of zero is refused. -/
def LuaCall.request : LuaCall → Option Request
  | set key value => some (.setValue key value none)
  | setex key value ttlSecs => if ttlSecs = 0 then none else some (.setValue key value (some ttlSecs))
  | delete key => some (.deleteValue key)
  | incr key => some (.incrValue key)
  | hset _ _ _ | hdel _ _ => none

/-- The calls from the n-th on, each sent as a request of its own. -/
def serveCalls (rt : Runtime) (io : Io) : Nat → List LuaCall → Server → Server
  | _, [], srv => srv
  | n, call :: calls, srv =>
      serveCalls rt io (n + 1) calls
        (call.request.elim srv fun req => srv.serve rt (io.nth n, req))

/-- The request logs what the call logs, and makes its store call. -/
theorem LuaCall.request_loggedWrite {rt : Runtime} (hserde : rt.StrRoundTrip) {call : LuaCall} {req : Request}
    (h : call.request = some req) :
    ∃ op, call.logged rt = some op ∧ req.loggedWrite rt = some (op, call.write) := by
  cases call with
  | set key value =>
      cases h
      obtain ⟨json, hjson, -⟩ := hserde value
      refine ⟨_, rfl, ?_⟩
      simp [Request.loggedWrite, luaValueJson, hjson, WalOperation.raw, write]
  | setex key value ttlSecs =>
      simp only [request] at h
      split at h
      · cases h
      · next httl =>
          cases h
          obtain ⟨json, hjson, -⟩ := hserde value
          refine ⟨_, rfl, ?_⟩
          simp [Request.loggedWrite, luaValueJson, hjson, httl, WalOperation.raw, write]
  | delete key =>
      cases h
      exact ⟨_, rfl, rfl⟩
  | incr key =>
      cases h
      exact ⟨_, rfl, rfl⟩
  | hset _ _ _ | hdel _ _ => cases h

/-- One call, and one request. -/
theorem luaCall_serve {rt : Runtime} (hserde : rt.StrRoundTrip) {io : Io} {n : Nat} {call : LuaCall}
    {req : Request}
    (hreq : call.request = some req) {srv srv' : Server} (hkey : requireApiKey io.headers srv'.runtime = none)
    (hstore : srv.store.quiet = srv'.store.quiet) (hwal : srv.wal = srv'.wal) :
    (Server.luaCall rt srv io n call).store.quiet = (srv'.serve rt (io.nth n, req)).store.quiet ∧
      (Server.luaCall rt srv io n call).wal = (srv'.serve rt (io.nth n, req)).wal ∧
      (srv'.serve rt (io.nth n, req)).runtime = srv'.runtime := by
  obtain ⟨op, hop, hlogged⟩ := LuaCall.request_loggedWrite hserde hreq
  have hkey' : requireApiKey (io.nth n).headers srv'.runtime = none := hkey
  have hruntime := Server.handle_loggedWrite_runtime hlogged hkey'
  unfold Server.luaCall Server.serve
  rw [hop]
  cases hdisk : io.disk n with
  | some e =>
      have hdisk' : (io.nth n).disk 0 = some e := hdisk
      simp only [Server.append, hdisk, Server.handle_loggedWrite_failed hlogged hkey' hdisk']
      exact ⟨hstore, hwal, trivial⟩
  | none =>
      have hdisk' : (io.nth n).disk 0 = none := hdisk
      obtain ⟨hwal', hsettled⟩ := Server.handle_loggedWrite hlogged hkey' hdisk'
      simp only [Server.append, hdisk]
      refine ⟨?_, by rw [hwal', hwal]; rfl, hruntime⟩
      rw [hsettled.quiet, Server.luaCall_run rt]
      exact (KvStore.write_alike rt hstore (io.now n) call.write).2

theorem luaCalls_serveCalls {rt : Runtime} (hserde : rt.StrRoundTrip) {io : Io} {calls : List LuaCall} :
    ∀ {n : Nat} {srv srv' : Server}, (∀ call ∈ calls, call.request ≠ none) →
      requireApiKey io.headers srv'.runtime = none → srv.store.quiet = srv'.store.quiet →
      srv.wal = srv'.wal →
      (Server.luaCalls rt io n calls srv).store.quiet = (serveCalls rt io n calls srv').store.quiet ∧
        (Server.luaCalls rt io n calls srv).wal = (serveCalls rt io n calls srv').wal := by
  induction calls with
  | nil => exact fun _ _ hstore hwal => ⟨hstore, hwal⟩
  | cons call calls ih =>
      intro n srv srv' hcalls hkey hstore hwal
      obtain ⟨req, hreq⟩ := Option.ne_none_iff_exists'.mp (hcalls call (by simp))
      obtain ⟨hstore', hwal', hruntime⟩ := luaCall_serve hserde (n := n) hreq hkey hstore hwal
      rw [Server.luaCalls, serveCalls, hreq, Option.elim_some]
      exact ih (fun c hc => hcalls c (List.mem_cons_of_mem call hc)) (by rw [hruntime]; exact hkey)
        hstore' hwal'

/-- A script that is run and whose changes have requests leaves, for every environment, the store and the log
that these requests leave, sent one by one; but for the events, which it does not publish. -/
theorem script_equals_requests {rt : Runtime} (hserde : rt.StrRoundTrip) (srv : Server) (io : ScriptIo)
    (text : String) (script : Script) (hkey : requireApiKey io.headers srv.runtime = none)
    (hadmitted : srv.luaAdmitted (script.made rt io srv.store (some srv.wal) text) = true)
    (hcalls : ∀ call ∈ script.calls rt io srv.store (some srv.wal), call.request ≠ none) :
    (srv.luaExecScript rt io text script).2.store.quiet
        = (serveCalls rt io.toIo 0 (script.calls rt io srv.store (some srv.wal)) srv).store.quiet ∧
      (srv.luaExecScript rt io text script).2.wal
        = (serveCalls rt io.toIo 0 (script.calls rt io srv.store (some srv.wal)) srv).wal := by
  rw [Server.luaExecScript_eq, Server.luaExec_snd, if_pos hadmitted]
  exact luaCalls_serveCalls hserde hcalls hkey rfl rfl

/-- `if not exists('k') then set('k', '1') end; return incr('n')`: the increment is refused. -/
def onceScript : Script :=
  .call (.exists_ "k") fun
    | .flag false => .call (.set "k" "1") fun _ => .call (.incr "n") fun
        | .error e => .done (.error e)
        | _ => .done (.ok [])
    | _ => .done (.ok [])

theorem script_equals_requests_once :
    ((Server.fresh {} none false).luaExecScript .strings
        { Io.healthy 5 with readAt := fun _ => 5 } "" onceScript).2.wal
      = [WalEntry.new 5 (.set "k" (luaValueJson .strings "1") none), WalEntry.new 5 (.incr "n")] :=
  (script_equals_requests Runtime.strings_strRoundTrip (Server.fresh {} none false)
    { Io.healthy 5 with readAt := fun _ => 5 } "" onceScript rfl (by decide +kernel) (by decide +kernel)).2.trans
    (by decide +kernel)

end Daikon
