/-
# Daikon.Recovery.Transactions -- the log of a server with transactions

Inside a transaction a SET or a DELETE is logged at once and queued; an APPEND is logged and changes
a present string at once. EXEC carries the queue out and DISCARD forgets it, and neither logs
anything. What the log says is what the store holds once its open transaction has been executed
(`KvStore.executed`), as long as nothing is discarded and no APPEND meets a queued write of its key.

A run is read in two parts. As long as an open transaction queues nothing but removals, the live store
and the replay of its log make the same calls in the same order, so they evict alike and it does not matter
how often (`Paired`). The first put that waits in a queue ends that: EXEC carries it out without counting
its bytes and behind whatever acted at once in between, while its replay counts them in the place that the
log gives it. From there on the two are compared by what each key holds (`Linked`), and that takes room
enough for nothing to be evicted any more, on either side.

`transactions_durable` joins the two parts and reads the log from its file, in an environment where an
append that fails writes nothing. Either part may be empty: a run without transactions is all first part.
-/
import Daikon.Recovery.Restart
import Daikon.Recovery.Startup
import Daikon.Store.Abreast
import Daikon.Store.Queue

namespace Daikon

open Lib.KeyedLog (run run_append run_comm run_of_ne)
open Lib.Run (Guarded)

/-! ## The queue -/

namespace KvStore

/-- The cells of the operations that the open transaction has queued. -/
def queuedCells (s : KvStore) : List (String × CellOp) :=
  (s.transactionQueue.getD []).map TransactionOp.cell

/-- What the store holds once its open transaction has been executed. -/
def executed (s : KvStore) : String → Option Value := run (valueUpdates s.queuedCells) s.values

theorem run_one (key : String) (op : CellOp) (values : String → Option Value) :
    run (valueUpdates [(key, op)]) values = Function.update values key (op.onValue (values key)) := rfl

theorem execOps_values (ops : List TransactionOp) (s : KvStore) :
    (execOps s ops).2.values = run (valueUpdates (ops.map TransactionOp.cell)) s.values := by
  show (fun k => ((execOps s ops).2.contents k).map ValueWithTTL.value) = _
  rw [execOps_contents]
  exact run_values _ s.contents

/-! ## Once the transaction is executed -/

theorem executed_of_none {s : KvStore} (h : s.transactionQueue = none) : s.executed = s.values := by
  simp [executed, queuedCells, h, valueUpdates]

/-- Queueing an operation adds what EXEC will do for it. -/
theorem executed_queued {s s' : KvStore} {queue : List TransactionOp} (op : TransactionOp)
    (htx : s.transactionQueue = some queue) (htx' : s'.transactionQueue = some (queue ++ [op]))
    (hvalues : s'.values = s.values) :
    s'.executed = run (valueUpdates [op.cell]) s.executed := by
  simp only [executed, queuedCells, htx, htx', hvalues, Option.getD_some, List.map_append,
    valueUpdates_append, run_append, List.map_cons, List.map_nil]

theorem exec_executed (s : KvStore) : s.exec.2.executed = s.executed := by
  unfold exec
  cases htx : s.transactionQueue with
  | none => rfl
  | some queue =>
      have hnone : (execOps { s with transactionQueue := none } queue).2.transactionQueue = none :=
        (execOps_frame queue _).transactionQueue
      rw [executed_of_none hnone]
      simp only [execOps_values, executed, queuedCells, htx, Option.getD_some]
      rfl

theorem exec_values (s : KvStore) : s.exec.2.values = s.executed := by
  unfold exec
  cases htx : s.transactionQueue with
  | none => exact (executed_of_none htx).symm
  | some queue =>
      simp only [execOps_values, executed, queuedCells, htx, Option.getD_some]
      rfl

theorem multi_executed (s : KvStore) : s.multi.2.executed = s.executed := by
  unfold multi
  cases htx : s.transactionQueue with
  | none =>
      simp only [executed, queuedCells, htx, Option.getD_none]
      rfl
  | some queue => rfl

/-- With nothing in the queue, nothing is lost. -/
theorem discard_executed {s : KvStore} (h : s.transactionQueue.getD [] = []) :
    s.discard.2.executed = s.executed := by
  unfold discard
  cases htx : s.transactionQueue with
  | none => rfl
  | some queue =>
      rw [htx] at h
      simp only [Option.getD_some] at h
      simp only [executed, queuedCells, htx, h, Option.getD_some]
      rfl

/-! ## SET, DELETE and APPEND -/

section

variable {s : KvStore} {key : String} (now : Nat)

/-- Outside a transaction a call does at once what its cells say. -/
theorem write_executed_of_none (rt : Runtime) {w : Write} (hw : w.Keyed)
    (htx : s.inTransaction = false)
    (hfits : s.Fits (s.growth (w.cells rt s.config s.inTransaction now))) :
    (s.write rt now w).2.executed = run (valueUpdates (w.cells rt s.config false now)) s.executed := by
  have hmoves := write_refines rt s now hw hfits
  have hnone : s.transactionQueue = none := by simpa [inTransaction] using htx
  have hnone' : (s.write rt now w).2.transactionQueue = none := by
    have := hmoves.inTransaction.trans htx
    simpa [inTransaction] using this
  rw [executed_of_none hnone, executed_of_none hnone', hmoves.values, htx]

theorem setWithExpiry_executed {value : Value} {expiresAt : Option Nat} {queue : List TransactionOp}
    (hvalid : s.config.Valid key value) (htx : s.transactionQueue = some queue) :
    (s.setWithExpiry now key value expiresAt).2.executed
      = run (valueUpdates [(key, .assign value expiresAt)]) s.executed := by
  rw [setWithExpiry_queued hvalid htx]
  exact executed_queued (.set key value expiresAt) htx rfl rfl

theorem delete_executed {queue : List TransactionOp} (htx : s.transactionQueue = some queue) :
    (s.delete now key).2.executed = run (valueUpdates [(key, .remove)]) s.executed := by
  unfold delete
  rw [if_pos (by simp [inTransaction, htx])]
  refine executed_queued (.delete key) htx ?_ ?_
  · simp only [queueOperation, htx]
  · simp only [queueOperation, htx]
    rfl

/-- What a key holds that is not in the queue is there already. -/
theorem executed_apply {k : String} (h : ∀ op ∈ s.transactionQueue.getD [], op.cell.1 ≠ k) :
    s.executed k = s.values k := by
  refine run_of_ne (fun u hu => ?_) _
  obtain ⟨c, hc, rfl⟩ := List.mem_map.mp hu
  obtain ⟨op, hop, rfl⟩ := List.mem_map.mp hc
  exact h op hop

/-- An APPEND to a key that is not in the queue. -/
theorem append_executed {value : String} {queue : List TransactionOp}
    (htx : s.transactionQueue = some queue)
    (hfree : ∀ op ∈ s.transactionQueue.getD [], op.cell.1 ≠ key)
    (hfits : s.Fits (s.growth [(key, .appendStr s.config s.inTransaction key value)])) :
    (s.append now key value).2.executed
      = run (valueUpdates [(key, .appendStr s.config false key value)]) s.executed := by
  have hkey := executed_apply hfree
  cases hentry : s.store[key]? with
  | none =>
      -- a missing key is set, and that is queued
      have hnone : s.values key = none := by simp [values, contents, hentry]
      rw [append_absent s key now value hentry]
      by_cases hvalid : s.config.Valid key (.str value)
      · rw [set, setWithExpiry_executed now hvalid htx]
        rw [run_one, run_one, hkey, hnone]
        simp [CellOp.onValue, CellOp.appendStr, hvalid]
      · obtain ⟨e, he⟩ := setWithExpiry_refused now none hvalid
        have hnothing : (CellOp.appendStr s.config false key value).onValue (s.executed key)
            = s.executed key := by
          rw [hkey, hnone]
          simp [CellOp.onValue, CellOp.appendStr, hvalid]
        rw [set, he]
        rw [run_one, hnothing, Function.update_eq_self]
  | some entry =>
      have hsome : s.values key = some entry.value := by simp [values, contents, hentry]
      have hqueue : (s.append now key value).2.transactionQueue = s.transactionQueue := by
        unfold append
        rw [hentry]
        obtain ⟨old, expiresAt⟩ := entry
        cases old <;> rfl
      have hvalues := (append_moves s key now value hfits).values
      have hdisjoint : Lib.KeyedLog.Disjoint
          (valueUpdates [(key, .appendStr s.config s.inTransaction key value)])
          (valueUpdates s.queuedCells) := by
        intro u hu w hw
        obtain ⟨c, hc, rfl⟩ := List.mem_map.mp hw
        obtain ⟨op, hop, rfl⟩ := List.mem_map.mp hc
        rw [List.mem_singleton.mp hu]
        exact (hfree op hop).symm
      have hswap : (s.append now key value).2.executed
          = run (valueUpdates [(key, .appendStr s.config s.inTransaction key value)]) s.executed := by
        have hcomm := run_comm hdisjoint s.values
        rw [run_append, run_append] at hcomm
        rw [executed, queuedCells, hqueue, hvalues]
        exact hcomm
      rw [hswap]
      rw [run_one, run_one, hkey, hsome]
      rfl

end

end KvStore

/-! ## Removals only -/

/-- The queue removes keys and does nothing else. -/
def OnlyRemovals (ops : List TransactionOp) : Prop := ∀ op ∈ ops, ∃ key, op = .delete key

namespace KvStore

theorem execOp_removed (s : KvStore) (key : String) : Removed s (s.execOp (.delete key)).2 key :=
  ⟨values_erase s key, rfl, rfl, rfl⟩

theorem execOps_concat (ops : List TransactionOp) (op : TransactionOp) :
    ∀ s : KvStore, (execOps s (ops ++ [op])).2 = ((execOps s ops).2.execOp op).2 := by
  induction ops with
  | nil => exact fun s => rfl
  | cons first ops ih => exact fun s => ih _

/-- EXEC of removals keeps two stores abreast. -/
theorem Abreast.execOps {ops : List TransactionOp} (hops : OnlyRemovals ops) : ∀ {s t : KvStore},
    Abreast s t → Abreast (execOps s ops).2 (execOps t ops).2 := by
  induction ops with
  | nil => exact fun h => h
  | cons op ops ih =>
      intro s t h
      obtain ⟨key, rfl⟩ := hops op List.mem_cons_self
      exact ih (fun op hop => hops op (List.mem_cons_of_mem _ hop))
        (h.removed (execOp_removed s key) (execOp_removed t key))

/-- An entry of another key may as well be rewritten behind the removals. -/
theorem execOps_rewriteEntry {ops : List TransactionOp} (hops : OnlyRemovals ops) {key : String}
    (hfree : ∀ op ∈ ops, op.cell.1 ≠ key) (entry : ValueWithTTL) : ∀ s : KvStore,
      Abreast (execOps (s.rewriteEntry key entry) ops).2 ((execOps s ops).2.rewriteEntry key entry) := by
  induction ops with
  | nil => exact fun s => ⟨rfl, rfl, rfl, rfl⟩
  | cons op ops ih =>
      intro s
      obtain ⟨removed, rfl⟩ := hops op List.mem_cons_self
      have hne : removed ≠ key := hfree (.delete removed) List.mem_cons_self
      have hrest : OnlyRemovals ops := fun op hop => hops op (List.mem_cons_of_mem _ hop)
      -- the two stores behind the first removal
      have hfirst : Abreast ((s.rewriteEntry key entry).execOp (.delete removed)).2
          ((s.execOp (.delete removed)).2.rewriteEntry key entry) := by
        refine ⟨?_, rfl, rfl, rfl⟩
        have hs : (s.execOp (.delete removed)).2.values = Function.update s.values removed none :=
          values_erase s removed
        have hput : (s.rewriteEntry key entry).values = Function.update s.values key (some entry.value) :=
          values_insert s key entry
        calc ((s.execOp (.delete removed)).2.rewriteEntry key entry).values
            = Function.update (s.execOp (.delete removed)).2.values key (some entry.value) :=
              values_insert _ key entry
          _ = Function.update (Function.update s.values removed none) key (some entry.value) := by rw [hs]
          _ = Function.update (Function.update s.values key (some entry.value)) removed none :=
              Function.update_comm hne _ _ _
          _ = ((s.rewriteEntry key entry).execOp (.delete removed)).2.values := by
              rw [← hput]
              exact (values_erase _ removed).symm
      exact (hfirst.execOps hrest).trans
        (ih hrest (fun op hop => hfree op (List.mem_cons_of_mem _ hop)) _)

/-- The open transaction, if there is one, queues no put for the call. -/
def PutsAtOnce (s : KvStore) : Write → Prop
  | .set key value | .setWithTtl key value _ => s.inTransaction = true → ¬ s.config.Valid key value
  | .append key value => s.inTransaction = true → s.values key = none → ¬ s.config.Valid key (.str value)
  | _ => True

/-- A store whose open transaction removes keys, and beside it a store where they are removed. -/
structure Paired (s t : KvStore) : Prop where
  removals : OnlyRemovals (s.transactionQueue.getD [])
  closed : t.transactionQueue = none
  abreast : Abreast s.exec.2 t

section

variable {s t : KvStore}

theorem exec_of_none (h : s.transactionQueue = none) : s.exec.2 = s := by
  unfold exec
  rw [h]

theorem exec_of_some {queue : List TransactionOp} (h : s.transactionQueue = some queue) :
    s.exec.2 = (execOps { s with transactionQueue := none } queue).2 := by
  unfold exec
  rw [h]

theorem Paired.of_closed (hs : s.transactionQueue = none) (ht : t.transactionQueue = none)
    (h : Abreast s t) : Paired s t where
  removals := by
    rw [hs]
    exact fun op hop => by cases hop
  closed := ht
  abreast := by rwa [exec_of_none hs]

theorem exec_rewriteEntry (hremovals : OnlyRemovals (s.transactionQueue.getD [])) {key : String}
    (hfree : ∀ op ∈ s.transactionQueue.getD [], op.cell.1 ≠ key) (entry : ValueWithTTL) :
    Abreast (s.rewriteEntry key entry).exec.2 (s.exec.2.rewriteEntry key entry) := by
  cases htx : s.transactionQueue with
  | none =>
      rw [exec_of_none htx, exec_of_none (show (s.rewriteEntry key entry).transactionQueue = none from htx)]
      exact ⟨rfl, rfl, rfl, rfl⟩
  | some queue =>
      rw [htx] at hremovals hfree
      have hrewritten : (s.rewriteEntry key entry).transactionQueue = some queue := htx
      rw [exec_of_some htx, exec_of_some hrewritten]
      exact execOps_rewriteEntry hremovals hfree entry { s with transactionQueue := none }

theorem setWithExpiry_closed (h : s.transactionQueue = none) (now : Nat) (key : String) (value : Value)
    (expiresAt : Option Nat) : (s.setWithExpiry now key value expiresAt).2.transactionQueue = none := by
  have htx : (s.setWithExpiry now key value expiresAt).2.inTransaction = s.inTransaction :=
    setWithExpiry_inTransaction
  simpa [inTransaction, h] using htx

theorem Paired.put (h : Paired s t) (now now' : Nat) {key : String} {value : Value}
    (expiresAt expiresAt' : Option Nat) (hputs : s.inTransaction = true → ¬ s.config.Valid key value) :
    Paired (s.setWithExpiry now key value expiresAt).2 (t.setWithExpiry now' key value expiresAt').2 := by
  cases htx : s.transactionQueue with
  | none =>
      have habreast := h.abreast
      rw [exec_of_none htx] at habreast
      exact .of_closed (setWithExpiry_closed htx now key value expiresAt)
        (setWithExpiry_closed h.closed now' key value expiresAt')
        (habreast.put htx h.closed now now' key value expiresAt expiresAt')
  | some queue =>
      -- refused by both
      have hrefused := hputs (by simp [inTransaction, htx])
      have hconfig : t.config = s.config := h.abreast.config.trans (exec_config s)
      obtain ⟨e, he⟩ := setWithExpiry_refused now expiresAt hrefused
      obtain ⟨e', he'⟩ := setWithExpiry_refused (s := t) now' expiresAt' (hconfig ▸ hrefused)
      rw [he, he']
      exact h

theorem Paired.delete (h : Paired s t) (now now' : Nat) (key : String) :
    Paired (s.delete now key).2 (t.delete now' key).2 := by
  have htclosed : (t.delete now' key).2.transactionQueue = none := by
    have htx := (delete_moves t key now').inTransaction
    simpa [inTransaction, h.closed] using htx
  cases htx : s.transactionQueue with
  | none =>
      have habreast := h.abreast
      rw [exec_of_none htx] at habreast
      have hsclosed : (s.delete now key).2.transactionQueue = none := by
        have htx' := (delete_moves s key now).inTransaction
        simpa [inTransaction, htx] using htx'
      exact .of_closed hsclosed htclosed (habreast.delete htx h.closed now now' key)
  | some queue =>
      have hqueued : (s.delete now key).2 = { s with transactionQueue := some (queue ++ [.delete key]) } := by
        unfold KvStore.delete queueOperation
        rw [if_pos (by simp [inTransaction, htx]), htx]
      have habreast := h.abreast
      rw [exec_of_some htx] at habreast
      refine ⟨?_, htclosed, ?_⟩
      · have hremovals := h.removals
        rw [htx] at hremovals
        rw [hqueued]
        intro op hop
        rcases List.mem_append.mp hop with hop | hop
        · exact hremovals op hop
        · exact ⟨key, List.mem_singleton.mp hop⟩
      · rw [hqueued, exec_of_some rfl, execOps_concat]
        exact habreast.removed (execOp_removed _ key) (delete_removed h.closed now' key)

theorem Paired.append (h : Paired s t) (now now' : Nat) {key value : String}
    (hputs : s.inTransaction = true → s.values key = none → ¬ s.config.Valid key (.str value))
    (hfree : ∀ op ∈ s.transactionQueue.getD [], op.cell.1 ≠ key) :
    Paired (s.append now key value).2 (t.append now' key value).2 := by
  -- the key is not in the queue, so both stores have the same value there
  have hvalue : t.values key = s.values key := by
    rw [h.abreast.values, exec_values, executed_apply hfree]
  cases hentry : s.store[key]? with
  | none =>
      have hnone : s.values key = none := by simp [values, contents, hentry]
      have hentry' : t.store[key]? = none := by
        rw [hnone] at hvalue
        simpa [values, contents] using hvalue
      rw [append_absent s key now value hentry, append_absent t key now' value hentry']
      exact h.put now now' none none fun htx => hputs htx hnone
  | some entry =>
      obtain ⟨old, expiresAt⟩ := entry
      have hsome : s.values key = some old := by simp [values, contents, hentry]
      obtain ⟨expiresAt', hentry'⟩ : ∃ expiresAt', t.store[key]? = some ⟨old, expiresAt'⟩ := by
        rw [hsome] at hvalue
        obtain ⟨entry', hentry', hold⟩ := Option.map_eq_some_iff.mp hvalue
        obtain ⟨old', expiresAt'⟩ := entry'
        cases hold
        exact ⟨expiresAt', hentry'⟩
      unfold KvStore.append
      rw [hentry, hentry']
      cases old with
      | str old =>
          refine ⟨h.removals, h.closed, ?_⟩
          exact (exec_rewriteEntry h.removals hfree _).trans
            (h.abreast.rewriteEntry key (.str (old ++ value)) expiresAt expiresAt')
      | _ => exact h

theorem Paired.multi (h : Paired s t) : Paired s.multi.2 t := by
  cases htx : s.transactionQueue with
  | some queue =>
      unfold KvStore.multi
      rw [htx]
      exact h
  | none =>
      have hopen : s.multi.2 = { s with transactionQueue := some [] } := by
        unfold KvStore.multi
        rw [htx]
        rfl
      have habreast := h.abreast
      rw [exec_of_none htx] at habreast
      rw [hopen]
      refine ⟨fun op hop => (by cases hop), h.closed, Abreast.trans ?_ habreast⟩
      rw [exec_of_some rfl]
      exact ⟨rfl, rfl, rfl, rfl⟩

theorem Paired.exec (h : Paired s t) : Paired s.exec.2 t := by
  refine .of_closed ?_ h.closed h.abreast
  cases htx : s.transactionQueue with
  | none => rw [exec_of_none htx, htx]
  | some queue =>
      rw [exec_of_some htx]
      exact (execOps_frame queue _).transactionQueue

theorem Paired.discard (h : Paired s t) (hempty : s.transactionQueue.getD [] = []) :
    Paired s.discard.2 t := by
  unfold KvStore.discard
  cases htx : s.transactionQueue with
  | none => exact h
  | some queue =>
      obtain rfl : queue = [] := by rwa [htx] at hempty
      have habreast := h.abreast
      rw [exec_of_some htx] at habreast
      exact .of_closed rfl h.closed habreast

/-- What has been drained of events is paired as before. -/
theorem Paired.settled {s' : KvStore} (h : Paired s t) (hs : Server.Settled s s') : Paired s' t := by
  obtain ⟨pending, rfl⟩ := hs
  refine ⟨h.removals, h.closed, Abreast.trans ?_ h.abreast⟩
  cases htx : s.transactionQueue with
  | none =>
      rw [exec_of_none htx, exec_of_none rfl]
      exact ⟨rfl, rfl, rfl, rfl⟩
  | some queue =>
      have hremovals := h.removals
      rw [htx] at hremovals
      rw [exec_of_some htx, exec_of_some rfl]
      exact Abreast.execOps hremovals ⟨rfl, rfl, rfl, rfl⟩

end

end KvStore

/-! ## Runs -/

/-- The requests of a client that sets, deletes and appends, in transactions and outside. -/
def Request.Transactional : Request → Prop
  | setValue _ _ _ | deleteValue _ | appendValue _ _ | multi | exec | discard => True
  | _ => False

namespace Server

/-- What is asked of every request of a run: a SET that is logged is within the limits, an APPEND that is
carried out names no key of the queue, and nothing is discarded but an empty queue. -/
structure Orderly (rt : Runtime) (srv : Server) (r : Io × Request) : Prop where
  replayable : srv.LogsReplayable rt srv.store.config r
  append : requireApiKey r.1.headers srv.runtime = none → r.1.disk 0 = none →
    ∀ key value, r.2 = .appendValue key value → ∀ op ∈ srv.store.transactionQueue.getD [], op.cell.1 ≠ key
  discard : requireApiKey r.1.headers srv.runtime = none → r.2 = .discard →
    srv.store.transactionQueue.getD [] = []

/-- No open transaction queues a put for a call of the request. -/
def PutsAtOnce (rt : Runtime) (srv : Server) (r : Io × Request) : Prop :=
  ∀ c ∈ (srv.effects rt r.1 r.2).filterMap Effect.call, srv.store.PutsAtOnce c.2

/-- The calls of the request evict nothing. -/
def Roomy (rt : Runtime) (srv : Server) (r : Io × Request) : Prop :=
  srv.store.Fits (srv.store.growth (KvStore.allCells rt srv.store.config srv.store.inTransaction
    ((srv.effects rt r.1 r.2).filterMap Effect.call)))

instance (rt : Runtime) (srv : Server) (r : Io × Request) : Decidable (srv.Roomy rt r) :=
  inferInstanceAs (Decidable (KvStore.Fits _ _))

/-- Once no transaction is open, the log replays from the initial store to the live values. -/
def Durable (rt : Runtime) (initial : KvStore) (clock : Nat → Nat) (srv : Server) : Prop :=
  srv.store.inTransaction = false →
    ∃ store, replayWal rt (stamped clock srv.wal) initial = .ok store ∧
      store.values = srv.store.values

/-- The entries say what the store holds once its transaction is executed, if they are replayed on the base. -/
structure Linked (rt : Runtime) (base : KvStore) (entries : List WalEntry) (srv : Server) : Prop where
  values : run (valueUpdates (logCells rt base.config entries)) base.values = srv.store.executed
  entries : ∀ entry ∈ entries, entry.operation.Replayable rt base.config ∧
    ∀ w, entry.operation.replayed rt = some w → w.Keyed
  config : srv.store.config = base.config

theorem Settled.executed {s t : KvStore} (h : Settled s t) : t.executed = s.executed := by
  obtain ⟨pending, rfl⟩ := h
  rfl

/-- The log goes on, from a part that replays to the base, with such entries. -/
def Extends (rt : Runtime) (base : KvStore) (before : List WalEntry) (srv : Server) : Prop :=
  ∃ entries, srv.wal = before ++ entries ∧ Linked rt base entries srv

/-- A request that leaves the log alone and loses nothing of the queue. -/
theorem Linked.unlogged {rt : Runtime} {base : KvStore} {entries : List WalEntry} {srv srv' : Server}
    (h : Linked rt base entries srv) (hexecuted : srv'.store.executed = srv.store.executed)
    (hconfig : srv'.store.config = srv.store.config) : Linked rt base entries srv' where
  values := by rw [hexecuted]; exact h.values
  entries := h.entries
  config := hconfig.trans h.config

/-- A request with one entry, which replay reads as the call that is made. -/
theorem Linked.logged {rt : Runtime} {base : KvStore} {entries : List WalEntry} {srv srv' : Server}
    (h : Linked rt base entries srv) {entry : WalEntry} {now : Nat} {w : Write}
    (hw : entry.operation.replayed rt = some w) (hkeyed : w.Keyed)
    (hreplayable : entry.operation.Replayable rt srv.store.config)
    (hexecuted : srv'.store.executed
      = run (valueUpdates (w.cells rt srv.store.config false now)) srv.store.executed)
    (hconfig : srv'.store.config = srv.store.config) : Linked rt base (entries ++ [entry]) srv' where
  values := by
    have hcells : entry.operation.replayedCells rt base.config
        = w.cells rt srv.store.config false 0 := by
      rw [WalOperation.replayedCells, hw, h.config]
      rfl
    rw [logCells_concat, valueUpdates_append, run_append, h.values, hexecuted, hcells,
      valueUpdates_now rt _ false 0 now]
  entries := by
    intro e he
    rcases List.mem_append.mp he with hold | hnew
    · exact h.entries e hold
    · rw [List.mem_singleton.mp hnew]
      refine ⟨h.config ▸ hreplayable, fun w' hw' => ?_⟩
      rw [hw] at hw'
      cases hw'
      exact hkeyed
  config := hconfig.trans h.config

/-- A SET, DELETE or APPEND makes no call, or it is admitted and logs an entry that replay reads as the call
that is made. -/
theorem transactional_effects {rt : Runtime} (hserde : rt.StrRoundTrip) (srv : Server) (io : Io)
    {req : Request} (hreq : req.Transactional) :
    srv.effects rt io req = [] ∨ (requireApiKey io.headers srv.runtime = none ∧ io.disk 0 = none ∧ ∃ op w,
      srv.effects rt io req = [⟨some (WalEntry.new (io.loggedAt 0) op), some (io.now 0, w)⟩] ∧
        req.loggedWrite rt = some (op, w) ∧ op.replayed rt = some w) := by
  unfold effects
  cases requireApiKey io.headers srv.runtime with
  | some refusal => exact .inl rfl
  | none =>
      have hcalls : dispatchEffects rt srv io req
          = (req.loggedWrite rt).elim [] fun p => io.effect 0 p.1 p.2 := by
        cases req with
        | hashHincrbyfloat _ _ _ | pipelineExec _ | luaExec _ => exact hreq.elim
        | _ =>
            simp only [dispatchEffects]
            split <;> simp_all
      simp only [hcalls]
      cases hop : req.loggedWrite rt with
      | none => exact .inl rfl
      | some p =>
          obtain ⟨op, w⟩ := p
          simp only [Option.elim, Io.effect]
          cases io.disk 0 with
          | some e => exact .inl rfl
          | none =>
              -- only SET logs a text for its value, and that decodes to it
              refine .inr ⟨trivial, rfl, op, w, rfl, rfl, ?_⟩
              cases req with
              | setValue key value ttl =>
                  obtain ⟨-, json, hjson, rfl, rfl⟩ := Request.loggedWrite_setValue hop
                  cases ttl <;>
                    simp only [WalOperation.replayed, hserde.decode hjson, Option.map_some,
                      WalOperation.raw]
              | deleteValue key => cases hop; rfl
              | appendValue key value => cases hop; rfl
              | multi | exec | discard => cases hop
              | _ => exact hreq.elim

/-- What MULTI, EXEC and DISCARD do: the log stays, and the store is as it was or, where the request is
admitted, what the method of that name leaves. -/
theorem transactional_unlogged (rt : Runtime) (srv : Server) (io : Io) {req : Request}
    (hreq : req.Transactional) (hwrite : ¬ req.IsWrite) :
    (srv.serve rt (io, req)).wal = srv.wal ∧ ((srv.serve rt (io, req)).store = srv.store ∨
      requireApiKey io.headers srv.runtime = none ∧
        (req = .multi ∧ (srv.serve rt (io, req)).store = srv.store.multi.2 ∨
          req = .exec ∧ (srv.serve rt (io, req)).store = srv.store.exec.2 ∨
          req = .discard ∧ (srv.serve rt (io, req)).store = srv.store.discard.2)) := by
  unfold serve handle
  cases requireApiKey io.headers srv.runtime with
  | some refusal => exact ⟨rfl, .inl rfl⟩
  | none =>
      cases req with
      | multi =>
          simp only [dispatch, Server.multi, transactionAnswer_snd]
          exact ⟨trivial, .inr ⟨trivial, .inl ⟨trivial, trivial⟩⟩⟩
      | exec =>
          simp only [dispatch, Server.exec, transactionAnswer_snd]
          exact ⟨trivial, .inr ⟨trivial, .inr (.inl ⟨trivial, trivial⟩)⟩⟩
      | discard =>
          simp only [dispatch, Server.discard, transactionAnswer_snd]
          exact ⟨trivial, .inr ⟨trivial, .inr (.inr ⟨trivial, trivial⟩)⟩⟩
      | setValue _ _ _ | deleteValue _ | appendValue _ _ => exact absurd trivial hwrite
      | _ => exact hreq.elim

/-- The call of a SET, DELETE or APPEND does to what will be executed what its cells say. -/
theorem call_executed {rt : Runtime} (hserde : rt.StrRoundTrip) {s : KvStore} {req : Request}
    {op : WalOperation} {w : Write} {now : Nat} (hreq : req.Transactional)
    (hop : req.loggedWrite rt = some (op, w)) (hreplayable : op.Replayable rt s.config)
    (hfits : s.Fits (s.growth (w.cells rt s.config s.inTransaction now)))
    (happend : ∀ key value, req = .appendValue key value →
      ∀ op ∈ s.transactionQueue.getD [], op.cell.1 ≠ key) :
    (s.write rt now w).2.executed = run (valueUpdates (w.cells rt s.config false now)) s.executed := by
  cases htx : s.transactionQueue with
  | none =>
      exact KvStore.write_executed_of_none now rt (loggedWrite_keyed hop)
        (by simp [KvStore.inTransaction, htx]) hfits
  -- inside a transaction: SET and DELETE are queued, APPEND may act at once
  | some queue =>
      cases req with
      | setValue key value ttl =>
          obtain ⟨-, json, hjson, rfl, rfl⟩ := Request.loggedWrite_setValue hop
          have hvalid : s.config.Valid key (.str value) := hreplayable _ (hserde.decode hjson)
          have hput : ∀ expiresAt, CellOp.assignIf s.config false key (.str value) expiresAt
              = .assign (.str value) expiresAt := fun expiresAt => if_pos ⟨hvalid, rfl⟩
          cases ttl with
          | none =>
              simp only [WalOperation.raw, Write.cells, hput]
              exact KvStore.setWithExpiry_executed now hvalid htx
          | some ttl =>
              simp only [WalOperation.raw, Write.cells, hput]
              exact KvStore.setWithExpiry_executed now hvalid htx
      | deleteValue key => cases hop; exact KvStore.delete_executed now htx
      | appendValue key value =>
          cases hop
          exact KvStore.append_executed now htx (happend key value rfl) hfits
      | multi | exec | discard => cases hop
      | _ => exact hreq.elim

/-- One step of the part that asks for room. -/
theorem Extends.step {rt : Runtime} (hserde : rt.StrRoundTrip) {base : KvStore} {before : List WalEntry}
    {srv : Server} {r : Io × Request} (h : Extends rt base before srv) (hreq : r.2.Transactional)
    (hord : Orderly rt srv r) (hroom : Roomy rt srv r) : Extends rt base before (srv.serve rt r) := by
  obtain ⟨entries, hwal, h⟩ := h
  obtain ⟨io, req⟩ := r
  by_cases hwrite : req.IsWrite
  · -- a SET, DELETE or APPEND
    obtain ⟨hafter, hstore⟩ := handle_performs rt srv io hwrite
    have hreplayable := (logged_replayable hserde srv (io, req)).mpr hord.replayable
    have hfits : srv.store.Fits _ := hroom
    rcases transactional_effects hserde srv io hreq with hnone | ⟨hkey, hdisk, op, w, heff, hop, hw⟩
    · rw [hnone] at hafter hstore
      refine ⟨entries, ?_, h.unlogged hstore.executed hstore.config⟩
      rw [show (srv.serve rt (io, req)).wal = _ from hafter, hwal]
      simp
    · simp only [heff] at hafter hstore hreplayable hfits
      have hentry : op.Replayable rt srv.store.config :=
        hreplayable (WalEntry.new (io.loggedAt 0) op) (by simp)
      have hcall := call_executed hserde hreq hop hentry (by simpa [KvStore.allCells] using! hfits)
        (hord.append hkey hdisk)
      have hconfig : (srv.serve rt (io, req)).store.config = srv.store.config :=
        hstore.config.trans (KvStore.write_config rt srv.store (io.now 0) w)
      refine ⟨entries ++ [WalEntry.new (io.loggedAt 0) op], ?_,
        h.logged hw (loggedWrite_keyed hop) hentry (hstore.executed.trans hcall) hconfig⟩
      rw [show (srv.serve rt (io, req)).wal = _ from hafter, hwal]
      simp
  · -- MULTI, EXEC or DISCARD, which log nothing
    obtain ⟨hafter, hstore⟩ := transactional_unlogged rt srv io hreq hwrite
    refine ⟨entries, hafter.trans hwal, ?_⟩
    rcases hstore with hsame | ⟨hkey, ⟨-, hmulti⟩ | ⟨-, hexec⟩ | ⟨rfl, hdiscard⟩⟩
    · exact h.unlogged (by rw [hsame]) (by rw [hsame])
    · exact h.unlogged (by rw [hmulti, KvStore.multi_executed]) (by rw [hmulti, KvStore.multi_config])
    · exact h.unlogged (by rw [hexec, KvStore.exec_executed]) (by rw [hexec, KvStore.exec_config])
    · exact h.unlogged (by rw [hdiscard, KvStore.discard_executed (hord.discard hkey rfl)])
        (by rw [hdiscard, KvStore.discard_config])

/-! ## The part that evicts as it likes -/

/-- A SET, DELETE or APPEND on both stores. -/
theorem paired_call {rt : Runtime} {s t : KvStore} (h : s.Paired t) (now now' : Nat) {req : Request}
    {op : WalOperation} {w : Write} (hreq : req.Transactional) (hop : req.loggedWrite rt = some (op, w))
    (hputs : s.PutsAtOnce w) (hfree : ∀ key value, req = .appendValue key value →
      ∀ op ∈ s.transactionQueue.getD [], op.cell.1 ≠ key) :
    (s.write rt now w).2.Paired (t.write rt now' w).2 := by
  cases req with
  | setValue key value ttl =>
      obtain ⟨-, json, -, rfl, rfl⟩ := Request.loggedWrite_setValue hop
      cases ttl with
      | none => exact h.put now now' none none hputs
      | some ttl => exact h.put now now' (checkedAdd now ttl) (checkedAdd now' ttl) hputs
  | deleteValue key => cases hop; exact h.delete now now' key
  | appendValue key value => cases hop; exact h.append now now' hputs (hfree key value rfl)
  | multi | exec | discard => cases hop
  | _ => exact hreq.elim

/-- The log replays to a store that is paired with the live one. -/
def InPair (rt : Runtime) (initial : KvStore) (clock : Nat → Nat) (srv : Server) : Prop :=
  ∃ t, replayWal rt (stamped clock srv.wal) initial = .ok t ∧ srv.store.Paired t

theorem InPair.step {rt : Runtime} (hserde : rt.StrRoundTrip) {initial : KvStore} {clock : Nat → Nat}
    {srv : Server} {r : Io × Request} (h : InPair rt initial clock srv) (hreq : r.2.Transactional)
    (hord : Orderly rt srv r) (hputs : PutsAtOnce rt srv r) : InPair rt initial clock (srv.serve rt r) := by
  obtain ⟨io, req⟩ := r
  obtain ⟨t, hreplay, hpaired⟩ := h
  by_cases hwrite : req.IsWrite
  · obtain ⟨hafter, hstore⟩ := handle_performs rt srv io hwrite
    have hwal : (srv.serve rt (io, req)).wal = _ := hafter
    have hreplayable := (logged_replayable hserde srv (io, req)).mpr hord.replayable
    rcases transactional_effects hserde srv io hreq with hnone | ⟨hkey, hdisk, op, w, heff, hop, hw⟩
    · rw [hnone] at hwal hstore
      refine ⟨t, ?_, hpaired.settled hstore⟩
      rw [hwal]
      simpa using hreplay
    · simp only [heff] at hwal hstore hreplayable
      have hconfig : t.config = srv.store.config :=
        hpaired.abreast.config.trans (KvStore.exec_config srv.store)
      have hentry : op.Replayable rt t.config := by
        rw [hconfig]
        exact hreplayable (WalEntry.new (io.loggedAt 0) op) (by simp)
      have hcall : (srv.store.write rt (io.now 0) w).2.Paired (t.write rt (clock srv.wal.length) w).2 :=
        paired_call hpaired (io.now 0) (clock srv.wal.length) hreq hop
          (hputs (io.now 0, w) (by simp [heff])) (hord.append hkey hdisk)
      -- replay makes the call that the handler has made
      refine ⟨(t.write rt (clock srv.wal.length) w).2, ?_, hcall.settled hstore⟩
      rw [hwal]
      show replayWal rt (stamped clock (srv.wal ++ [WalEntry.new (io.loggedAt 0) op])) initial = _
      rw [stamped_concat, replayWal_append, hreplay]
      change replayWal rt [(clock srv.wal.length, WalEntry.new (io.loggedAt 0) op)] t = _
      rw [replayWal_cons_of_replayable hentry]
      simp only [WalEntry.new, hw]
      rfl
  · obtain ⟨hwal, hstore⟩ := transactional_unlogged rt srv io hreq hwrite
    refine ⟨t, by rw [hwal]; exact hreplay, ?_⟩
    rcases hstore with hsame | ⟨hkey, ⟨-, hmulti⟩ | ⟨-, hexec⟩ | ⟨rfl, hdiscard⟩⟩
    · rw [hsame]
      exact hpaired
    · rw [hmulti]
      exact hpaired.multi
    · rw [hexec]
      exact hpaired.exec
    · rw [hdiscard]
      exact hpaired.discard (hord.discard hkey rfl)

/-! ## Whole runs -/

theorem stamped_append (clock : Nat → Nat) (before after : List WalEntry) :
    stamped clock (before ++ after)
      = stamped clock before ++ stamped (fun i => clock (before.length + i)) after := by
  simp only [stamped, List.mapIdx_append, Nat.add_comm]

/-- A run of two parts, of which the first queues no put and the second has room for all it does. -/
theorem durable_run {rt : Runtime} (hserde : rt.StrRoundTrip) {initial mid : Server}
    (hempty : initial.wal = []) (hclosed : initial.store.transactionQueue = none)
    (plain rest : List (Io × Request)) (hmid : plain.foldl (serve rt) initial = mid) (clock : Nat → Nat)
    (hplain : Guarded (serve rt)
      (fun srv r => r.2.Transactional ∧ Orderly rt srv r ∧ PutsAtOnce rt srv r) initial plain)
    (hrest : Guarded (serve rt)
      (fun srv r => r.2.Transactional ∧ Orderly rt srv r ∧ Roomy rt srv r) mid rest)
    (hroom : mid.store.exec.2.Fits (mid.store.exec.2.growth (KvStore.allCells rt mid.store.config false
      (replayCalls rt ((stamped clock (rest.foldl (serve rt) mid).wal).drop mid.wal.length))))) :
    Durable rt initial.store clock (rest.foldl (serve rt) mid) := by
  have hstart : InPair rt initial.store clock initial := by
    refine ⟨initial.store, by rw [hempty]; rfl, .of_closed hclosed hclosed ⟨rfl, rfl, rfl, rfl⟩⟩
  have hfirst : InPair rt initial.store clock mid := by
    rw [← hmid]
    exact hplain.foldl (fun srv r h hr => h.step hserde hr.1 hr.2.1 hr.2.2) hstart
  obtain ⟨t, hreplay, hpaired⟩ := hfirst
  have hconfig : t.config = mid.store.config := hpaired.abreast.config.trans (KvStore.exec_config mid.store)
  -- from the middle on, what is logged is replayed on the store that the first part replays to
  have hbase : Extends rt t mid.wal mid := by
    refine ⟨[], (List.append_nil _).symm, ?_, fun entry hentry => (by cases hentry), hconfig.symm⟩
    exact hpaired.abreast.values.trans (KvStore.exec_values mid.store)
  obtain ⟨entries, hwal, hlinked⟩ : Extends rt t mid.wal (rest.foldl (serve rt) mid) :=
    hrest.foldl (fun srv r h hr => h.step hserde hr.1 hr.2.1 hr.2.2) hbase
  generalize rest.foldl (serve rt) mid = srv at hwal hlinked hroom
  intro htx
  have hnone : srv.store.transactionQueue = none := by simpa [KvStore.inTransaction] using htx
  have hlength : mid.wal.length = (stamped clock mid.wal).length := by simp [stamped]
  rw [hwal, stamped_append, hlength, List.drop_left] at hroom
  have hfits := hpaired.abreast.fits hroom
  have htclosed : t.inTransaction = false := by simp [KvStore.inTransaction, hpaired.closed]
  rw [← hconfig, ← htclosed] at hfits
  obtain ⟨store, hlater, hvalues, -⟩ := replayWal_values _ hlinked.entries htclosed hfits
  refine ⟨store, ?_, ?_⟩
  · rw [hwal, stamped_append, replayWal_append, hreplay, ← hlater]
    simp [Except.bind, stamped]
  · rw [hvalues, hlinked.values, KvStore.executed_of_none hnone]

/-- Outside a transaction nothing is queued. -/
theorem putsAtOnce_of_closed (rt : Runtime) {srv : Server} (h : srv.store.inTransaction = false)
    (r : Io × Request) : PutsAtOnce rt srv r := by
  intro c _
  cases hw : c.2 with
  | set key value => exact fun htx => by simp [h] at htx
  | setWithTtl key value ttl => exact fun htx => by simp [h] at htx
  | append key value => exact fun htx => by simp [h] at htx
  | _ => trivial

end Server

namespace OnDisk

/-- Once no transaction is open, the file of the log is read and replays from the initial store to the live
values. -/
def Durable (rt : Runtime) (c : Codec) (initial : KvStore) (clock : Nat → Nat) (s : OnDisk) : Prop :=
  s.server.store.inTransaction = false →
    ∃ entries store, c.readAll s.log.file = .ok entries ∧
      replayWal rt (stamped clock entries) initial = .ok store ∧ store.values = s.server.store.values

/-- Transactions are durable as executed, in every orderly run from an empty log whose appends succeed or
write nothing. Up to some point no open transaction queues a put, and any number of keys may be evicted; from
there on there is room for what the requests put, and for what replay puts once the queue of that point has
been carried out. Whenever no transaction is open, the log gives the live values. -/
theorem transactions_durable (rt : Runtime) (hserde : rt.StrRoundTrip) (c : Codec) (hc : c.Lawful)
    (initial mid : OnDisk) (hlog : initial.log = {}) (hempty : initial.server.wal = [])
    (hclosed : initial.server.store.transactionQueue = none) (plain rest : List (DiskIo × Request))
    (hmid : plain.foldl (serve rt c) initial = mid) (clock : Nat → Nat)
    (hclean : ∀ r ∈ plain ++ rest, r.1.FailsClean)
    (hplain : Guarded (serve rt c) (fun s r => r.2.Transactional ∧ s.server.Orderly rt (s.seen rt c r) ∧
      s.server.PutsAtOnce rt (s.seen rt c r)) initial plain)
    (hrest : Guarded (serve rt c) (fun s r => r.2.Transactional ∧ s.server.Orderly rt (s.seen rt c r) ∧
      s.server.Roomy rt (s.seen rt c r)) mid rest)
    (hroom : mid.server.store.exec.2.Fits (mid.server.store.exec.2.growth
      (KvStore.allCells rt mid.server.store.config false (replayCalls rt
        ((stamped clock (rest.foldl (serve rt c) mid).server.wal).drop mid.server.wal.length))))) :
    (rest.foldl (serve rt c) mid).Durable rt c initial.server.store clock := by
  have hfile : (rest.foldl (serve rt c) mid).Whole c := by
    rw [← hmid, ← List.foldl_append]
    exact whole_foldl hc (plain ++ rest) (whole_of_empty hlog hempty) hclean
  obtain ⟨run, hserver, hguarded⟩ := exists_run rt c plain initial
  obtain ⟨run', hserver', hguarded'⟩ := exists_run rt c rest mid
  have hdurable := Server.durable_run hserde hempty hclosed run run'
    (show run.foldl (Server.serve rt) initial.server = mid.server by rw [← hmid, hserver]) clock
    ((hguarded fun srv r => r.2.Transactional ∧ srv.Orderly rt r ∧ srv.PutsAtOnce rt r).mp hplain)
    ((hguarded' fun srv r => r.2.Transactional ∧ srv.Orderly rt r ∧ srv.Roomy rt r).mp hrest)
    (by rw [← hserver']; exact hroom)
  rw [← hserver'] at hdurable
  intro htx
  obtain ⟨store, hreplay, hvalues⟩ := hdurable htx
  exact ⟨_, store, hfile.readAll, hreplay, hvalues⟩

/-- Two SETs of which the second evicts the first, and then one in a transaction. -/
theorem transactions_durable_exec :
    let plain := [(DiskIo.healthy 0, Request.setValue "a" "xx" none), (.healthy 0, .setValue "b" "yy" none)]
    let rest := [(DiskIo.healthy 0, Request.multi), (.healthy 0, .setValue "k" "v" none), (.healthy 0, .exec)]
    let c := setCodec [("a", "xx"), ("b", "yy"), ("k", "v")]
    ((plain ++ rest).foldl (serve .strings c) (fresh { maxMemoryBytes := 3 } none false)).Durable .strings c
      (KvStore.withConfig { maxMemoryBytes := 3 }) fun _ => 4 := by
  refine transactions_durable .strings Runtime.strings_strRoundTrip _ (setCodec_lawful (by decide +kernel))
    (fresh { maxMemoryBytes := 3 } none false) _ rfl rfl rfl
    [(DiskIo.healthy 0, .setValue "a" "xx" none), (.healthy 0, .setValue "b" "yy" none)]
    [(DiskIo.healthy 0, .multi), (.healthy 0, .setValue "k" "v" none), (.healthy 0, .exec)] rfl (fun _ => 4)
    ?_ ⟨⟨trivial, ?_, ?_⟩, ⟨trivial, ?_, ?_⟩, trivial⟩
    ⟨⟨trivial, ?_, ?_⟩, ⟨trivial, ?_, ?_⟩, ⟨trivial, ?_, ?_⟩, trivial⟩ ?_
  · intro r hr
    have hhealthy : r ∈ [Request.setValue "a" "xx" none, .setValue "b" "yy" none, .multi,
      .setValue "k" "v" none, .exec].map (DiskIo.healthy 0, ·) := hr
    obtain ⟨req, -, rfl⟩ := List.mem_map.mp hhealthy
    exact DiskIo.healthy_failsClean 0
  · exact ⟨fun _ _ _ => by decide +kernel, fun _ _ _ _ h => (by cases h), fun _ h => (by cases h)⟩
  · exact Server.putsAtOnce_of_closed .strings rfl _
  · exact ⟨fun _ _ _ => by decide +kernel, fun _ _ _ _ h => (by cases h), fun _ h => (by cases h)⟩
  · exact Server.putsAtOnce_of_closed .strings (by decide +kernel) _
  · exact ⟨fun _ => trivial, fun _ _ _ _ h => (by cases h), fun _ h => (by cases h)⟩
  · decide +kernel
  · exact ⟨fun _ _ _ => by decide +kernel, fun _ _ _ _ h => (by cases h), fun _ h => (by cases h)⟩
  · decide +kernel
  · exact ⟨fun _ => trivial, fun _ _ _ _ h => (by cases h), fun _ h => (by cases h)⟩
  · decide +kernel
  · decide +kernel

end OnDisk

namespace Server

/-- A transaction that sets a key and ends in this way. -/
def inTransaction (last : Request) : List (Io × Request) :=
  [(Io.healthy 1, .multi), (Io.healthy 2, .setValue "k" "v" none), (Io.healthy 3, last)]

/-- The SET was discarded and is in the log: replay carries it out. -/
theorem discarded_set_replayed :
    ((inTransaction .discard).foldl (serve .strings) (fresh {} none false)).store.values "k" = none ∧
      ¬ Durable .strings (KvStore.withConfig {}) (fun _ => 4)
        ((inTransaction .discard).foldl (serve .strings) (fresh {} none false)) := by
  refine ⟨by decide, fun h => ?_⟩
  obtain ⟨store, hreplay, hvalues⟩ := h rfl
  have hdecode : Runtime.strings.valueFromJson (strToJson "v") = some (.str "v") := by
    rw [Runtime.strings_valueFromJson]
    exact strFromJson_strToJson "v"
  have hlog : replayWal .strings [(4, WalEntry.new 2 (.set "k" (strToJson "v") none))]
      (KvStore.withConfig {}) = .ok store := hreplay
  simp only [replayWal, replayOperation, WalEntry.new, hdecode] at hlog
  cases hlog
  have hk := congrFun hvalues "k"
  revert hk
  decide

end Server

end Daikon
