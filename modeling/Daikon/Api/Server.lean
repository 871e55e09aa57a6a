/-
# Daikon.Api.Server -- the state behind the HTTP handlers

A request reads and writes the shared store, the log and the messages given to Pub/Sub. What the
environment decides while a request runs is its `Io`: the headers, the readings of the clock and the
outcome of each append to the log. The appends of a request are counted, and so are its store calls, so
that a batch can meet a failing disk at any of its commands and a clock that moves between them.

The log is a list of entries here, those that `read_all` would give. So an append that fails is taken to
have written nothing: the file could not be opened, the entry could not be encoded, or the disk refused
the first byte. `Wal::append` makes two writes, the line and the newline, and may also fail between
them or within one; what such an append leaves behind is a matter of bytes, and those are in
`Daikon.Wal.File` and `Daikon.Wal.Torn`. `Daikon.Recovery.OnDisk` puts the list and the file side by
side: under the condition just named (`DiskIo.FailsClean`) the file is read back to exactly the list
after every run of requests. The results of this development about runs in which appends may fail are
about such environments.

Most handlers have one shape, `logFirst`: append, and on an error answer 500 and stop; else make the
store call, answer from its result and, some of them, publish the events that it queued. The handlers
themselves are in `Daikon.Api.Handlers`, the batches of them in `Daikon.Api.Batch`.
-/
import Daikon.Store.Json
import Daikon.Store.Quiet
import Daikon.Wal.Interpret

namespace Daikon

/-- The body of an answer. -/
inductive Body where
  | text (s : String)
  | json (j : Json)

/-- An answer: its status and its body. -/
structure Response where
  status : Nat
  body : Body

/-- What the handlers read of the settings: the API key, and whether and how large scripts may be. -/
structure ApiRuntimeConfig where
  apiKey : Option String
  luaEnabled : Bool
  maxLuaScriptBytes : Nat

/-- The request headers that carry the API key, where they are valid text. -/
structure Headers where
  xApiKey : Option String := none
  authorization : Option String := none

/-- The state that the handlers share. -/
structure Server where
  store : KvStore
  wal : List WalEntry := []
  /-- The messages handed to Pub/Sub: channel and text. -/
  published : List (String × String) := []
  runtime : Option ApiRuntimeConfig := none

/-- What the environment decides while a request runs. The entries a request logs are counted from
zero, and so are its store calls. -/
structure Io where
  headers : Headers := {}
  /-- The clock as the n-th entry is made. -/
  loggedAt : Nat → Nat
  /-- The clock as the n-th store call is made. -/
  now : Nat → Nat
  /-- The error of the n-th append, if it fails. -/
  disk : Nat → Option KvStoreError

/-- An environment in which nothing fails. -/
def Io.healthy (now : Nat) : Io := { loggedAt := fun _ => now, now := fun _ => now, disk := fun _ => none }

/-- `strip_prefix("Bearer ")`. -/
def stripBearer (value : String) : Option String :=
  if "Bearer ".toList.isPrefixOf value.toList then
    some (String.ofList (value.toList.drop "Bearer ".length))
  else none

/-- `require_api_key`: the refusal, if there is one. -/
def requireApiKey (headers : Headers) (runtime : Option ApiRuntimeConfig) : Option Response :=
  match runtime.bind ApiRuntimeConfig.apiKey with
  | none => none
  | some expected =>
      let provided := match headers.xApiKey with
        | some value => some value
        | none => headers.authorization.bind stripBearer
      if provided = some expected then none else some ⟨401, .text "Missing or invalid API key"⟩

namespace Server

/-- A server just started on an empty store and an empty log. -/
def fresh (cfg : StoreConfig) (runtime : Option ApiRuntimeConfig) (notify : Bool) : Server :=
  { store := (KvStore.withConfig cfg).setKeyspaceNotificationsEnabled notify, runtime }

/-- `Wal::append` of `WalEntry::new(operation)`, as the n-th append of the request. One that fails is taken
to have written nothing. -/
def append (srv : Server) (io : Io) (n : Nat) (operation : WalOperation) :
    Except KvStoreError Unit × Server :=
  match io.disk n with
  | some e => (.error e, srv)
  | none => (.ok (), { srv with wal := srv.wal ++ [WalEntry.new (io.loggedAt n) operation] })

/-- `publish_keyspace_events`: both channels of every pending event. -/
def publishKeyspaceEvents (srv : Server) : Server :=
  let r := srv.store.drainKeyspaceEvents
  { srv with
    store := r.2
    published := srv.published ++ r.1.flatMap fun event =>
      [("__keyevent__:" ++ event.kind.toString, event.key),
        ("__keyspace__:" ++ event.key, event.kind.toString)] }

/-- The log-first handlers: append the entry, then make the store call and answer from its result;
some publish the events of the call. -/
def logFirst (srv : Server) (io : Io) (failure : String) (operation : WalOperation) (publish : Bool)
    (call : KvStore → Response × KvStore) : Response × Server :=
  match srv.append io 0 operation with
  | (.error e, srv) => (⟨500, .text (failure ++ e.toString)⟩, srv)
  | (.ok (), srv) =>
      let r := call srv.store
      let srv := { srv with store := r.2 }
      (r.1, if publish then srv.publishKeyspaceEvents else srv)

end Server

/-- The answer to a store call: 200 with a body made from its result, or 400 with the error. -/
def Response.ofResult {α : Type} (body : α → Body) (r : Except KvStoreError α × KvStore) :
    Response × KvStore :=
  match r.1 with
  | .ok a => (⟨200, body a⟩, r.2)
  | .error e => (⟨400, .text e.toString⟩, r.2)

/-- A JSON string, or null. -/
def Json.ofOption : Option String → Json
  | some s => .str s
  | none => .null

end Daikon
