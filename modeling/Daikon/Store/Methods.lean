/-
# Daikon.Store.Methods -- the methods that change a store, as data

`Write` has the calls that handlers, replay and replicas make on entries. `Method` adds the rest of the
public methods that take `&mut self` and change something: transactions, clean-up, `pfreserve`, events,
counters and configuration. A run of a store is a list of methods, each with the clock at its call.

The split is by where the calls come from. A `Write` is what can be behind a log entry, and the modules on
recovery are about these alone; results about every reachable state of a store are about runs of `Method`.
Reads are not among them, since they take `&self` and change nothing; where the reads matter they are in
`Daikon.Store.Reads`.
-/
import Daikon.Store.Write

namespace Daikon

/-- The public methods that change a store. -/
inductive Method where
  | write (w : Write)
  | pfreserve (key : String) (precision : Nat)
  | cleanupExpired
  | multi
  | exec
  | discard
  | queueOperation (op : TransactionOp)
  | drainKeyspaceEvents
  | resetStats
  | setConfig (config : StoreConfig)
  | setKeyspaceNotificationsEnabled (enabled : Bool)

namespace KvStore

/-- All counters go to zero, the counted bytes among them. -/
def resetStats (s : KvStore) : KvStore := { s with stats := {} }

/-- The store after a call, made at the given clock. -/
def call (rt : Runtime) (s : KvStore) (c : Nat × Method) : KvStore :=
  match c.2 with
  | .write w => (s.write rt c.1 w).2
  | .pfreserve key precision => (s.pfreserve key precision).2
  | .cleanupExpired => (s.cleanupExpired c.1).2
  | .multi => s.multi.2
  | .exec => s.exec.2
  | .discard => s.discard.2
  | .queueOperation op => (s.queueOperation op).2
  | .drainKeyspaceEvents => s.drainKeyspaceEvents.2
  | .resetStats => s.resetStats
  | .setConfig config => s.setConfig config
  | .setKeyspaceNotificationsEnabled enabled => s.setKeyspaceNotificationsEnabled enabled

/-- The store after a list of calls. -/
def calls (rt : Runtime) (s : KvStore) (cs : List (Nat × Method)) : KvStore := cs.foldl (call rt) s

end KvStore

end Daikon
