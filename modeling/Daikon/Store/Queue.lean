/-
# Daikon.Store.Queue -- what EXEC does for the queued operations

EXEC carries every operation out inline, without the methods of the store. As far as the entries go,
an operation is one cell operation at its key (`TransactionOp.cell`), and a queue is the list of its
cells (`execOps_contents`). No byte is counted and no event is reported (`execOps_frame`).

A queued operation is one cell, also where the method that it stands for would have refused: EXEC makes no
check. So what a transaction will do is known from its queue, and the store that it is going to leave can be
spoken of while it is open (`KvStore.executed` in `Daikon.Recovery.Transactions`).

The recency list and the number of keys are what an operation does touch beside the entries; they are
followed in `Daikon.Store.Touch` and `Daikon.Store.KeyCount`, and are no part of the frame.
-/
import Daikon.Store.Refine

namespace Daikon

open Lib.KeyedLog (run)

namespace TransactionOp

/-- A counter of the queue, which starts from zero at a missing key. -/
def addCell (amount : Int64) : CellOp :=
  .edit (fun | .int i => .int (i + amount) | v => v) (some (.int amount))

/-- A queued APPEND, which creates its key without a check. -/
def appendCell (value : String) : CellOp :=
  .edit (fun | .str old => .str (old ++ value) | v => v) (some (.str value))

/-- What EXEC does for a queued operation. -/
def cell : TransactionOp → String × CellOp
  | set key value expiresAt => (key, .assign value expiresAt)
  | delete key => (key, .remove)
  | incr key => (key, addCell 1)
  | decr key => (key, addCell (-1))
  | incrBy key amount => (key, addCell amount)
  | append key value => (key, appendCell value)

end TransactionOp

namespace KvStore

theorem rewriteEntry_contents {s : KvStore} {key : String} {op : CellOp} {entry : ValueWithTTL}
    (h : some entry = op.onEntry (s.contents key)) :
    (s.rewriteEntry key entry).contents = run (entryUpdates [(key, op)]) s.contents := by
  funext k
  show (s.store.insert key entry)[k]? = Function.update s.contents key (op.onEntry (s.contents key)) k
  rw [contents_insert, h]

theorem execAdd_contents (s : KvStore) (key : String) (amount : Int64) :
    (s.execAdd key amount).2.contents
      = run (entryUpdates [(key, TransactionOp.addCell amount)]) s.contents := by
  unfold execAdd
  cases hkey : s.store[key]? with
  | none =>
      apply rewriteEntry_contents
      simp [contents, hkey, TransactionOp.addCell, CellOp.onEntry]
  | some entry =>
      obtain ⟨value, expiresAt⟩ := entry
      cases value <;>
        (apply rewriteEntry_contents
         simp [contents, hkey, TransactionOp.addCell, CellOp.onEntry])

/-- EXEC does for an operation what its cell says. -/
theorem execOp_contents (s : KvStore) (op : TransactionOp) :
    (s.execOp op).2.contents = run (entryUpdates [op.cell]) s.contents := by
  cases op with
  | set key value expiresAt => exact rewriteEntry_contents rfl
  | delete key =>
      funext k
      exact contents_erase s key k
  | incr key => exact execAdd_contents s key 1
  | decr key => exact execAdd_contents s key (-1)
  | incrBy key amount => exact execAdd_contents s key amount
  | append key value =>
      simp only [execOp, TransactionOp.cell]
      cases hkey : s.store[key]? with
      | none =>
          apply rewriteEntry_contents
          simp [contents, hkey, TransactionOp.appendCell, CellOp.onEntry]
      | some entry =>
          obtain ⟨old, expiresAt⟩ := entry
          cases old <;>
            (apply rewriteEntry_contents
             simp [contents, hkey, TransactionOp.appendCell, CellOp.onEntry])

theorem execOps_contents (ops : List TransactionOp) :
    ∀ s : KvStore, (execOps s ops).2.contents
      = run (entryUpdates (ops.map TransactionOp.cell)) s.contents := by
  induction ops with
  | nil => intro s; rfl
  | cons op ops ih =>
      intro s
      rw [execOps, ih, execOp_contents]
      rfl

/-- What a queued operation leaves alone: the limits, the queue, the byte counter and the events. -/
structure QueueFrame (s s' : KvStore) : Prop where
  config : s'.config = s.config
  transactionQueue : s'.transactionQueue = s.transactionQueue
  memoryBytes : s'.stats.memoryBytes = s.stats.memoryBytes
  pendingKeyspaceEvents : s'.pendingKeyspaceEvents = s.pendingKeyspaceEvents

theorem execOp_frame (s : KvStore) (op : TransactionOp) : QueueFrame s (s.execOp op).2 := by
  cases op with
  | incr key | decr key | incrBy key amount =>
      simp only [execOp, execAdd]
      split <;> exact ⟨rfl, rfl, rfl, rfl⟩
  | append key value =>
      simp only [execOp]
      split <;> exact ⟨rfl, rfl, rfl, rfl⟩
  | _ => exact ⟨rfl, rfl, rfl, rfl⟩

theorem execOps_frame (ops : List TransactionOp) :
    ∀ s : KvStore, QueueFrame s (execOps s ops).2 := by
  induction ops with
  | nil => intro s; exact ⟨rfl, rfl, rfl, rfl⟩
  | cons op ops ih =>
      intro s
      have hfirst := execOp_frame s op
      have hrest := ih (s.execOp op).2
      exact ⟨hrest.config.trans hfirst.config,
        hrest.transactionQueue.trans hfirst.transactionQueue,
        hrest.memoryBytes.trans hfirst.memoryBytes,
        hrest.pendingKeyspaceEvents.trans hfirst.pendingKeyspaceEvents⟩

theorem exec_config (s : KvStore) : s.exec.2.config = s.config := by
  unfold exec
  split
  · rfl
  · exact (execOps_frame _ _).config

theorem multi_config (s : KvStore) : s.multi.2.config = s.config := by
  unfold multi
  split <;> rfl

theorem discard_config (s : KvStore) : s.discard.2.config = s.config := by
  unfold discard
  split <;> rfl

/-! ## What an open transaction holds back -/

/-- The call is refused, or put into the queue of the open transaction. -/
def Deferred (s s' : KvStore) : Prop := ∃ queue, s' = { s with transactionQueue := some queue }

section

variable {s s' s'' : KvStore}

theorem Deferred.refl (htx : s.inTransaction = true) : Deferred s s := by
  obtain ⟨queue, hqueue⟩ := Option.isSome_iff_exists.mp htx
  exact ⟨queue, by rw [← hqueue]⟩

theorem Deferred.trans (h : Deferred s s') (h' : Deferred s' s'') : Deferred s s'' := by
  obtain ⟨queue, rfl⟩ := h
  obtain ⟨queue', rfl⟩ := h'
  exact ⟨queue', rfl⟩

theorem Deferred.contents (h : Deferred s s') : s'.contents = s.contents := by
  obtain ⟨queue, rfl⟩ := h
  rfl

theorem Deferred.pendingKeyspaceEvents (h : Deferred s s') :
    s'.pendingKeyspaceEvents = s.pendingKeyspaceEvents := by
  obtain ⟨queue, rfl⟩ := h
  rfl

theorem Deferred.inTransaction (h : Deferred s s') : s'.inTransaction = true := by
  obtain ⟨queue, rfl⟩ := h
  rfl

theorem setWithExpiry_deferred (htx : s.inTransaction = true) (now : Nat) (key : String)
    (value : Value) (expiresAt : Option Nat) :
    Deferred s (s.setWithExpiry now key value expiresAt).2 := by
  by_cases hvalid : s.config.Valid key value
  · obtain ⟨queue, hqueue⟩ := Option.isSome_iff_exists.mp htx
    rw [setWithExpiry_queued hvalid hqueue]
    exact ⟨_, rfl⟩
  · obtain ⟨e, he⟩ := setWithExpiry_refused (s := s) now expiresAt hvalid
    rw [he]
    exact Deferred.refl htx

theorem delete_deferred (htx : s.inTransaction = true) (now : Nat) (key : String) :
    Deferred s (s.delete now key).2 := by
  obtain ⟨queue, hqueue⟩ := Option.isSome_iff_exists.mp htx
  unfold delete queueOperation
  rw [if_pos htx, hqueue]
  exact ⟨_, rfl⟩

theorem mset_deferred (now : Nat) (pairs : List (String × String)) :
    ∀ {s : KvStore}, s.inTransaction = true → Deferred s (s.mset now pairs).2 := by
  induction pairs with
  | nil => exact Deferred.refl
  | cons pair pairs ih =>
      intro s htx
      obtain ⟨key, value⟩ := pair
      rw [mset_cons_snd]
      split
      · have hfirst := setWithExpiry_deferred htx now key (.str value) none
        exact hfirst.trans (ih hfirst.inTransaction)
      · exact Deferred.refl htx

end

end KvStore

end Daikon
