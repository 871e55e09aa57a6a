/-
# Daikon.Replica.Cluster -- a master and its replicas

The system: one master, any number of replicas, and clients of all of them. A sync of a replica is three
steps, the heartbeat, the fetch and the loop over what came back; between them the master serves others, and
other replicas sync. Requests and answers get lost, and every node may be started anew. A replica has one
sync under way at a time, that of its background task (`Daikon.Replica.Overlap` has the calls of sync that
overlap).

A step brings with it what the node reads from outside: clocks, the disk, whether a message gets there. So
the step function is a plain function of the state and the action, and a run is a list of actions, in which
every interleaving and every loss has its place. A part of a sync that is not due changes nothing.

The replica's index type has decidable equality and is arbitrary else. What the actions do is put together
from the functions of `Daikon.Replica.Wire` and of the master's server, none of it is written anew here;
`forall_setMember` is how a step of one replica is passed over by what holds of the others. What a run keeps
is the subject of `Daikon.Replica.Table` and `Daikon.Replica.Agreement`.
-/
import Daikon.Api.Effects
import Daikon.Lib.Run
import Daikon.Replica.Sync
import Daikon.Replica.Wire

namespace Daikon

/-- Where a replica is in its sync; `lastApplied` was read as the sync began. -/
inductive SyncStage where
  | idle
  | beaten (lastApplied : Nat)
  | fetched (lastApplied : Nat) (entries : List WalEntry) (totalEntries : Nat)

/-- A replica with its sync. -/
structure Member extends Peer where
  stage : SyncStage := .idle

/-- A master and its replicas. What one step of it reads of the network and the disks comes with the step.
-/
structure Cluster (ι : Type) where
  master : App
  members : ι → Member

namespace Cluster

/-- A step of the master, of a replica or of a client. The three parts of a sync are steps of their own. -/
inductive Action (ι : Type) where
  /-- A request of anyone to the master's HTTP API. -/
  | master (io : AppIo) (req : HttpRequest)
  /-- The master is made anew over this store and the log it has. -/
  | reboot (store : KvStore)
  | heartbeat (i : ι) (e : Exchange)
  | fetch (i : ι) (e : Exchange)
  | apply (i : ι) (io : SyncIo)
  /-- A write request to a replica's own HTTP API. -/
  | client (i : ι) (runtime : Option ApiRuntimeConfig) (io : Io) (req : Request)
  /-- A turn of the background task of a replica that removes expired keys. -/
  | sweep (i : ι) (now : Nat)
  /-- A replica is made anew over this store and the log it has. -/
  | restart (i : ι) (store : KvStore)

variable {ι : Type} [DecidableEq ι]

/-- Replace one replica. -/
def setMember (s : Cluster ι) (i : ι) (m : Member) : Cluster ι :=
  { s with members := Function.update s.members i m }

@[simp] theorem setMember_master (s : Cluster ι) (i : ι) (m : Member) :
    (s.setMember i m).master = s.master := rfl

@[simp] theorem setMember_self (s : Cluster ι) (i : ι) (m : Member) :
    (s.setMember i m).members i = m := Function.update_self _ _ _

theorem setMember_of_ne (s : Cluster ι) {i j : ι} (m : Member) (h : j ≠ i) :
    (s.setMember i m).members j = s.members j := Function.update_of_ne h _ _

/-- What holds of every member but one, and of the one that is set, holds of every member. -/
theorem forall_setMember {s : Cluster ι} {i : ι} {m : Member} {P : ι → Member → Prop}
    (hset : P i m) (hrest : ∀ j, j ≠ i → P j (s.members j)) (j : ι) :
    P j ((s.setMember i m).members j) := by
  by_cases hj : j = i
  · subst hj
    rwa [setMember_self]
  · rw [setMember_of_ne s m hj]
    exact hrest j hj

variable (rt : Runtime) (c : SnapshotCodec) (net : Net)

/-- What a step does. A part of a sync that is not due does nothing. -/
def step (s : Cluster ι) : Action ι → Cluster ι
  | .master io req => { s with master := (s.master.handle rt c io req).2 }
  | .reboot store =>
      { s with master := { s.master with
        server := { s.master.server with store, published := [] }
        pubsub := {}
        master := s.master.master.map fun m => { m with replicas := ∅ } } }
  | .heartbeat i e =>
      let m := s.members i
      match m.stage with
      | .idle =>
          let r := m.toPeer.beat rt c net e s.master
          let stage := match r.1 with
            | .ok () => SyncStage.beaten m.replica.lastAppliedIndex
            | .error _ => .idle
          { s with master := r.2 }.setMember i { m with stage }
      | _ => s
  | .fetch i e =>
      let m := s.members i
      match m.stage with
      | .beaten lastApplied =>
          let r := m.toPeer.fetch rt c net e lastApplied s.master
          let stage := match r.1 with
            | .ok (entries, total) => SyncStage.fetched lastApplied entries total
            | .error _ => .idle
          { s with master := r.2 }.setMember i { m with stage }
      | _ => s
  | .apply i io =>
      let m := s.members i
      match m.stage with
      | .fetched lastApplied entries total =>
          s.setMember i { m with
            replica := (Peer.applyFetched rt io lastApplied entries total m.replica).2
            stage := .idle }
      | _ => s
  | .client i runtime io req =>
      let m := s.members i
      let srv := Server.serve rt { store := m.replica.store, wal := m.replica.wal, runtime } (io, req)
      s.setMember i { m with replica := { m.replica with store := srv.store, wal := srv.wal } }
  | .sweep i now =>
      let m := s.members i
      s.setMember i { m with replica := { m.replica with store := (m.replica.store.cleanupExpired now).2 } }
  | .restart i store =>
      let m := s.members i
      s.setMember i { m with
        replica := { ReplicationReplica.new store m.replica.wal with carriedOut := m.replica.carriedOut }
        stage := .idle }

end Cluster

end Daikon
