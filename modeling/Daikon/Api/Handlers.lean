/-
# Daikon.Api.Handlers -- the handlers of single commands (`api.rs`)

One definition per write handler, past the API key check that they all begin with, and the reads
that have a pipeline command. Most append their entry first; the exceptions are
`hash_hincrbyfloat`, which logs the result of the call, and the handlers that log nothing.

A handler gets the server, what the environment decides for it (`Io`) and the arguments that its route has
taken from the path and the body. Most are one application of `logFirst`, which appends the entry, answers
500 with the handler's own text if that fails, and makes the store call else; the definition of a handler
then shows its operation, its call, its answer and whether it publishes.

The differences between siblings stand here as the source has them. Some log a text and some the JSON of a
value; a SET is checked for its time to live before the append and for its limits after it; the handlers of
PFADD, PFRESERVE and PFMERGE log nothing. The statuses and the members of the bodies are those of the
source, and so are the texts of the errors, in the two forms that the files of handlers use.
-/
import Daikon.Api.Server

namespace Daikon.Server

section

variable (rt : Runtime) (srv : Server) (io : Io)

/-- The text of the handlers of `api.rs` up to the list operations. -/
def logFailure : String := "Failed to log operation to WAL: "

/-- The text of the list and hash handlers. -/
def walError : String := "WAL error: "

/-! ## Strings and counters -/

/-- `PUT /keys/{key}`. A time to live of zero is refused before anything is logged; the limits on key and
value are checked by the store, after the entry is in the log. -/
def setValue (key value : String) (ttlSecs : Option Nat) : Response × Server :=
  if ttlSecs = some 0 then
    (⟨400, .text "ttl_secs must be greater than 0 when provided"⟩, srv)
  else
    match rt.valueToJson (.str value) with
    | .error e => (⟨500, .text s!"Failed to serialize value: {e}"⟩, srv)
    | .ok valueJson =>
        srv.logFirst io logFailure (.set key valueJson ttlSecs) true fun store =>
          Response.ofResult (fun _ => .text s!"Set '{key}' successfully")
            (match ttlSecs with
              | some ttl => store.setWithTtl (io.now 0) key (.str value) ttl
              | none => store.set (io.now 0) key (.str value))

/-- `DELETE /keys/{key}`, answered 404 where there was nothing to delete, or inside a transaction if there
is nothing now. -/
def deleteValue (key : String) : Response × Server :=
  srv.logFirst io logFailure (.delete key) true fun store =>
    match store.delete (io.now 0) key with
    | (some _, store) => (⟨200, .text s!"Deleted '{key}' successfully"⟩, store)
    | (none, store) => (⟨404, .text s!"Key '{key}' not found"⟩, store)

/-- `POST /incr/{key}`. The entry is logged whether or not the key holds an integer. -/
def incrValue (key : String) : Response × Server :=
  srv.logFirst io logFailure (.incr key) false fun store =>
    Response.ofResult (fun i => .json (.int i.toInt)) (store.incr key)

/-- `POST /decr/{key}`. -/
def decrValue (key : String) : Response × Server :=
  srv.logFirst io logFailure (.decr key) false fun store =>
    Response.ofResult (fun i => .json (.int i.toInt)) (store.decr key)

/-- `POST /incrby/{key}`, with the amount in the body. -/
def incrbyValue (key : String) (amount : Int64) : Response × Server :=
  srv.logFirst io logFailure (.incrBy key amount) false fun store =>
    Response.ofResult (fun i => .json (.int i.toInt)) (store.incrby key amount)

/-- `POST /append/{key}`, answered with the new length in bytes. It publishes nothing, though the append to
a missing key emits a set event. -/
def appendValue (key value : String) : Response × Server :=
  srv.logFirst io logFailure (.append key value) false fun store =>
    Response.ofResult (fun len : Nat => .json (.int len)) (store.append (io.now 0) key value)

/-- `POST /getset/{key}`. The text goes into the log as it is, not as the JSON of a value. -/
def getsetValue (key value : String) : Response × Server :=
  srv.logFirst io logFailure (.getSet key value) false fun store =>
    Response.ofResult (fun old => .json (.ofOption (old.map (Value.toString rt))))
      (store.getset (io.now 0) key (.str value))

/-- `POST /mset`. One entry has all pairs, and it stays where the store refuses one of them half way. -/
def msetValues (pairs : List (String × String)) : Response × Server :=
  srv.logFirst io logFailure (.mset pairs) false fun store =>
    Response.ofResult (fun _ => .text "OK") (store.mset (io.now 0) pairs)

/-! ## Expiry -/

/-- The answer of the two expiry handlers. -/
def expiryAnswer : Bool × KvStore → Response × KvStore
  | (true, store) => (⟨200, .json (.bool true)⟩, store)
  | (false, store) => (⟨404, .json (.bool false)⟩, store)

/-- `PUT /expire/{key}`. What is logged is the time to live, not the time at which the entry expires. -/
def setExpire (key : String) (ttlSecs : Nat) : Response × Server :=
  if ttlSecs = 0 then (⟨400, .text "ttl_secs must be greater than 0"⟩, srv)
  else
    srv.logFirst io logFailure (.expire key ttlSecs) true fun store =>
      expiryAnswer (store.expire (io.now 0) key ttlSecs)

/-- `DELETE /expire/{key}`, answered 404 where there was no expiry. -/
def persistKey (key : String) : Response × Server :=
  srv.logFirst io logFailure (.persist key) true fun store =>
    expiryAnswer (store.persist (io.now 0) key)

/-! ## Lists -/

/-- The body of a push and of LLEN. -/
def lengthBody (key : String) (length : Nat) : Body :=
  .json (.obj [("key", .str key), ("length", .int length)])

/-- The body of a pop, with null where the list gave nothing. -/
def poppedBody (key : String) (value : Option String) : Body :=
  .json (.obj [("key", .str key), ("value", .ofOption value)])

/-- `POST /list/{key}/lpush`. -/
def listLpush (key : String) (values : List String) : Response × Server :=
  srv.logFirst io walError (.lPush key values) false fun store =>
    Response.ofResult (lengthBody key) (store.lpush key values)

/-- `POST /list/{key}/rpush`. -/
def listRpush (key : String) (values : List String) : Response × Server :=
  srv.logFirst io walError (.rPush key values) false fun store =>
    Response.ofResult (lengthBody key) (store.rpush key values)

/-- `POST /list/{key}/lpop`. -/
def listLpop (key : String) : Response × Server :=
  srv.logFirst io walError (.lPop key) false fun store =>
    Response.ofResult (poppedBody key) (store.lpop key)

/-- `POST /list/{key}/rpop`. -/
def listRpop (key : String) : Response × Server :=
  srv.logFirst io walError (.rPop key) false fun store =>
    Response.ofResult (poppedBody key) (store.rpop key)

/-! ## Hashes -/

/-- `PUT /hash/{key}/hset`, answered with the number of fields that are new. -/
def hashHset (key : String) (fields : Fields) : Response × Server :=
  srv.logFirst io walError (.hSet key fields) false fun store =>
    Response.ofResult (fun added : Nat => .json (.int added)) (store.hset key fields)

/-- `DELETE /hash/{key}/hdel`, answered with the number of fields that were there. -/
def hashHdel (key : String) (fields : List String) : Response × Server :=
  srv.logFirst io walError (.hDel key fields) false fun store =>
    Response.ofResult (fun removed : Nat => .json (.int removed)) (store.hdel key fields)

/-- `POST /hash/{key}/hincrby/{field}`, which logs the amount. -/
def hashHincrby (key field : String) (amount : Int64) : Response × Server :=
  srv.logFirst io walError (.hIncrBy key field amount) false fun store =>
    Response.ofResult (fun i => .json (.int i.toInt)) (store.hincrby key field amount)

/-- The store call comes first, and its result is logged as an HSET. -/
def hashHincrbyfloat (key field : String) (amount : Float) : Response × Server :=
  match srv.store.hincrbyfloat rt key field amount with
  | (.ok value, store) =>
      let srv := { srv with store }
      match srv.append io 0 (.hSet key ((∅ : Fields).insert field (rt.f64ToString value))) with
      | (.error e, srv) => (⟨500, .text (walError ++ e.toString)⟩, srv)
      | (.ok (), srv) =>
          (⟨200, .json (.obj [("key", .str key), ("field", .str field), ("value", .float value)])⟩, srv)
  | (.error e, store) => (⟨400, .text e.toString⟩, { srv with store })

/-! ## Handlers that log nothing -/

/-- `POST /cleanup`, the clean-up of the background task on request. Nothing of it is logged. -/
def cleanupExpired : Response × Server :=
  let r := srv.store.cleanupExpired (io.now 0)
  (⟨200, .json (.int r.1)⟩, { srv with store := r.2 }.publishKeyspaceEvents)

/-- The answer of the transaction handlers: an error is reported as a JSON object. -/
def transactionAnswer {α : Type} (body : α → Json) (r : Except KvStoreError α × KvStore) :
    Response × Server :=
  match r.1 with
  | .ok a => (⟨200, .json (body a)⟩, { srv with store := r.2 })
  | .error e => (⟨400, .json (.obj [("error", .str e.toString)])⟩, { srv with store := r.2 })

/-- `POST /multi`. The one open transaction is that of the store, whoever asks. -/
def multi : Response × Server :=
  srv.transactionAnswer
    (fun _ => .obj [("status", .str "OK"), ("message", .str "Transaction started")]) srv.store.multi

/-- `POST /exec`. The queued writes are in the log since they were queued. -/
def exec : Response × Server :=
  srv.transactionAnswer (fun results => .obj [("results", .arr (results.map .str))]) srv.store.exec

/-- `POST /discard`. What the queue held stays in the log. -/
def discard : Response × Server :=
  srv.transactionAnswer
    (fun _ => .obj [("status", .str "OK"), ("message", .str "Transaction discarded")])
    srv.store.discard

/-- The answer of the HyperLogLog handlers. -/
def hllAnswer {α : Type} (body : α → Json) (r : Except KvStoreError α × KvStore) : Response × Server :=
  let answer := Response.ofResult (fun a => .json (body a)) r
  (answer.1, { srv with store := answer.2 })

/-- The body of PFADD, PFMERGE and PFCOUNT. -/
def countBody (key : String) (count : Nat) : Json := .obj [("key", .str key), ("count", .int count)]

/-- `POST /hll/{key}/add`. -/
def hllPfadd (key : String) (values : List String) : Response × Server :=
  srv.hllAnswer (countBody key) (srv.store.pfadd rt key values)

/-- `POST /hll/{key}/reserve`. -/
def hllPfreserve (key : String) (precision : Nat) : Response × Server :=
  srv.hllAnswer
    (fun _ => .obj [("key", .str key), ("precision", .int precision), ("status", .str "reserved")])
    (srv.store.pfreserve key precision)

/-- `POST /hll/{destination}/merge`. -/
def hllPfmerge (destination : String) (sources : List String) : Response × Server :=
  srv.hllAnswer (countBody destination) (srv.store.pfmerge destination sources)

/-- `PUT /keyspace/config`, which switches the notifications on or off. -/
def setKeyspaceConfig (enabled : Bool) : Response × Server :=
  (⟨200, .json (.obj [("keyspace_notifications_enabled", .bool enabled)])⟩,
    { srv with store := srv.store.setKeyspaceNotificationsEnabled enabled })

/-- The recovery handlers; `recovered` is what `Pitr` returns. -/
def pitrRecover (success : Json) (recovered : Except KvStoreError KvStore) : Response × Server :=
  match recovered with
  | .ok store => (⟨200, .json success⟩, { srv with store })
  | .error e => (⟨400, .json (.obj [("status", .str "ERROR"), ("error", .str e.toString)])⟩, srv)

/-- `POST /pitr/recover/{timestamp}`. The recovered store takes the place of the live one; the log and the
store file are left alone. -/
def pitrRecoverToTimestamp (target : Nat) (recovered : Except KvStoreError KvStore) :
    Response × Server :=
  srv.pitrRecover (.obj [("status", .str "OK"), ("recovered_to", .int target)]) recovered

/-- The handler that recovers to the latest snapshot. Its route is behind that of a time stamp, which takes
the request. -/
def pitrRecoverLatestSnapshot (recovered : Except KvStoreError KvStore) : Response × Server :=
  srv.pitrRecover
    (.obj [("status", .str "OK"), ("message", .str "Recovered to latest snapshot")]) recovered

/-! ## Reads -/

/-- `GET /keys/{key}`, answered with the text of the value whatever its type. -/
def getValue (key : String) : Response :=
  match srv.store.get (io.now 0) key with
  | some value => ⟨200, .json (.str (value.toString rt))⟩
  | none => ⟨404, .text s!"Key '{key}' not found"⟩

/-- `POST /mget`, with null for a key that is missing or has expired. -/
def mgetValues (keys : List String) : Response :=
  ⟨200, .json (.arr ((srv.store.mget (io.now 0) keys).map fun v =>
    .ofOption (v.map (Value.toString rt))))⟩

/-- `GET /exists/{key}`. -/
def existsKey (key : String) : Response := ⟨200, .json (.bool (srv.store.exists_ (io.now 0) key))⟩

/-- `GET /list/{key}/lrange`, the whole list if the bounds are left out. -/
def listLrange (key : String) (start stop : Option Int) : Response :=
  (Response.ofResult (fun values => .json (.obj [("key", .str key), ("values", .arr (values.map .str))]))
    (srv.store.lrange (io.now 0) key (start.getD 0) (stop.getD (-1)), srv.store)).1

/-- `GET /list/{key}/llen`. -/
def listLlen (key : String) : Response :=
  (Response.ofResult (lengthBody key) (srv.store.llen (io.now 0) key, srv.store)).1

end

end Daikon.Server
