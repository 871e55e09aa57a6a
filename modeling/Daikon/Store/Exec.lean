/-
# Daikon.Store.Exec -- EXEC beside direct calls

EXEC carries the queued operations out with arms of its own. They differ from the methods in three
places: a counter on a missing key starts from zero where `incr` fails, and neither a SET nor an APPEND
that creates its key is checked against the limits. A difference at a key lasts until a later DELETE or
SET of that key; what is left of it at the end is told by `exec_eq_directs_iff`.

The equivalence is decided key by key, since operations on different keys do not see each other, and for one
key by the last operation that settles its content (`resets`). Behind it only counters and APPENDs come, and
these keep two equal entries equal and two different ones different. Where no operation settles the content,
it is the first one that decides: it finds the key as it was before the transaction on both sides.

The direct calls are made on a store without a cap. Under a cap they evict and EXEC does not, and no
condition on the queue alone could make them equal.
-/
import Daikon.Store.Queue

namespace Daikon

open Lib.KeyedLog (run run_apply)

namespace TransactionOp

/-- What the corresponding method does at the key, outside a transaction. -/
def directCell (cfg : StoreConfig) : TransactionOp → String × CellOp
  | set key value expiresAt => (key, .assignIf cfg false key value expiresAt)
  | delete key => (key, .remove)
  | incr key => (key, .addInt 1)
  | decr key => (key, .addInt (-1))
  | incrBy key amount => (key, .addInt amount)
  | append key value => (key, .appendStr cfg false key value)

theorem directCell_fst (cfg : StoreConfig) (op : TransactionOp) :
    (op.directCell cfg).1 = op.cell.1 := by cases op <;> rfl

/-- The operation settles what is at its key, whatever was there. -/
def resets : TransactionOp → Bool
  | set _ _ _ | delete _ => true
  | _ => false

/-- What EXEC makes of the entry, over operations on one key. -/
def execEntry (ops : List TransactionOp) (e : Option ValueWithTTL) : Option ValueWithTTL :=
  ops.foldl (fun e op => op.cell.2.onEntry e) e

/-- What the direct calls make of it. -/
def directEntry (cfg : StoreConfig) (ops : List TransactionOp) (e : Option ValueWithTTL) :
    Option ValueWithTTL := ops.foldl (fun e op => (op.directCell cfg).2.onEntry e) e

/-- The method creates the missing key, too. -/
def Creates (cfg : StoreConfig) : TransactionOp → Prop
  | append key value => cfg.Valid key (.str value)
  | _ => False

/-- The operation, behind which only counters and APPENDs come, leaves the same in both: a SET is accepted
or finds just what it would put, a DELETE leaves the key to an operation that creates it or to none, and
any other finds the key or creates it. -/
def Agrees (cfg : StoreConfig) (rest : List TransactionOp) (e : Option ValueWithTTL) :
    TransactionOp → Prop
  | set key value expiresAt => cfg.Valid key value ∨ e = some ⟨value, expiresAt⟩
  | delete _ => ∀ next ∈ rest.head?, next.Creates cfg
  | op => e ≠ none ∨ op.Creates cfg

/-- Over operations on one key: the last SET or DELETE agrees, or, where there is none, the first
operation. -/
def Alike (cfg : StoreConfig) : List TransactionOp → Option ValueWithTTL → Prop
  | [], _ => True
  | op :: ops, e =>
      if ops.any resets then Alike cfg ops ((op.directCell cfg).2.onEntry e) else op.Agrees cfg ops e

/-! ## Operations in place -/

section

variable {cfg : StoreConfig}

theorem addInt_injective (amount : Int64) :
    Function.Injective (fun | .int i => .int (i + amount) | v => v : Value → Value) := by
  intro v w h
  cases v <;> cases w <;> simp_all

theorem appendStr_injective (value : String) :
    Function.Injective (fun | .str old => .str (old ++ value) | v => v : Value → Value) := by
  intro v w h
  cases v <;> cases w <;> simp_all

/-- On a present entry both do the same, and different entries stay different. -/
theorem onEntry_present (cfg : StoreConfig) {op : TransactionOp} (h : op.resets = false) :
    ∃ f : Value → Value, Function.Injective f ∧
      (∀ entry, op.cell.2.onEntry (some entry) = some { entry with value := f entry.value }) ∧
      ∀ entry, (op.directCell cfg).2.onEntry (some entry) = some { entry with value := f entry.value } := by
  cases op with
  | set key value expiresAt => cases h
  | delete key => cases h
  | incr key => exact ⟨_, addInt_injective 1, fun _ => rfl, fun _ => rfl⟩
  | decr key => exact ⟨_, addInt_injective (-1), fun _ => rfl, fun _ => rfl⟩
  | incrBy key amount => exact ⟨_, addInt_injective amount, fun _ => rfl, fun _ => rfl⟩
  | append key value => exact ⟨_, appendStr_injective value, fun _ => rfl, fun _ => rfl⟩

theorem present_alike_iff (cfg : StoreConfig) {ops : List TransactionOp}
    (h : ∀ op ∈ ops, op.resets = false) : ∀ {a b : ValueWithTTL},
      execEntry ops (some a) = directEntry cfg ops (some b) ↔ a = b := by
  induction ops with
  | nil => exact Option.some_inj
  | cons op ops ih =>
      intro a b
      obtain ⟨f, hf, hexec, hdirect⟩ := onEntry_present cfg (h op (by simp))
      show execEntry ops (op.cell.2.onEntry (some a))
        = directEntry cfg ops ((op.directCell cfg).2.onEntry (some b)) ↔ _
      rw [hexec, hdirect, ih fun op hop => h op (List.mem_cons_of_mem _ hop)]
      obtain ⟨value, expiresAt⟩ := a
      obtain ⟨value', expiresAt'⟩ := b
      simp [hf.eq_iff]

/-- The direct APPEND to a missing key creates the text, if the limits allow. -/
theorem append_creates {key value : String} (h : cfg.Valid key (.str value)) :
    ((append key value).directCell cfg).2.onEntry none = some ⟨.str value, none⟩ := by
  simp [directCell, CellOp.appendStr, CellOp.onEntry, h]

theorem append_refused {key value : String} (h : ¬ cfg.Valid key (.str value)) :
    ((append key value).directCell cfg).2.onEntry none = none := by
  simp [directCell, CellOp.appendStr, CellOp.onEntry, h]

/-- The text would be refused under this key. -/
def Oversized (cfg : StoreConfig) (key : String) (value : Value) : Prop :=
  ∀ text, value = .str text → ¬ cfg.Valid key (.str text)

theorem Oversized.append {key text more : String} (h : ¬ cfg.Valid key (.str text)) :
    ¬ cfg.Valid key (.str (text ++ more)) := by
  intro hvalid
  apply h
  refine ⟨hvalid.1, le_trans ?_ hvalid.2⟩
  simp [estimateValueSize]

/-- An entry that EXEC made where the direct calls were refused, and that is no text the limits allow,
stays different: the direct calls can only create a shorter text. -/
theorem refused_differs {key : String} {ops : List TransactionOp}
    (h : ∀ op ∈ ops, op.resets = false) (hkey : ∀ op ∈ ops, op.cell.1 = key) :
    ∀ {a : ValueWithTTL}, Oversized cfg key a.value →
      execEntry ops (some a) ≠ directEntry cfg ops none := by
  induction ops with
  | nil => intro a _ heq; cases heq
  | cons op ops ih =>
      intro a hover
      have hrest := fun op hop => h op (List.mem_cons_of_mem _ hop)
      have hkeys := fun op hop => hkey op (List.mem_cons_of_mem _ hop)
      obtain ⟨value, expiresAt⟩ := a
      show execEntry ops (op.cell.2.onEntry (some ⟨value, expiresAt⟩))
        ≠ directEntry cfg ops ((op.directCell cfg).2.onEntry none)
      cases op with
      | set k v x => cases h _ List.mem_cons_self
      | delete k => cases h _ List.mem_cons_self
      | incr k | decr k | incrBy k amount =>
          refine ih hrest hkeys (a := ⟨_, expiresAt⟩) ?_
          cases value with
          | str text => exact hover
          | _ => exact fun text htext => by cases htext
      | append k more =>
          obtain rfl : k = key := hkey _ List.mem_cons_self
          by_cases hvalid : cfg.Valid k (.str more)
          · -- the direct call creates the text
            rw [append_creates hvalid]
            cases value with
            | str text =>
                rw [show (append k more).cell.2.onEntry (some ⟨.str text, expiresAt⟩)
                  = some ⟨.str (text ++ more), expiresAt⟩ from rfl, ne_eq, present_alike_iff cfg hrest]
                intro heq
                have htext : text = "" := by simpa using congrArg ValueWithTTL.value heq
                refine hover text rfl ⟨hvalid.1, ?_⟩
                rw [htext]
                exact Nat.zero_le _
            | _ =>
                refine mt (present_alike_iff cfg hrest).mp fun heq => ?_
                cases congrArg ValueWithTTL.value heq
          · rw [append_refused hvalid]
            refine ih hrest hkeys (a := ⟨_, expiresAt⟩) ?_
            cases value with
            | str text =>
                intro text' htext
                cases htext
                exact Oversized.append (hover text rfl)
            | _ => exact fun text htext => by cases htext

/-- From a missing key, the first operation decides. -/
theorem missing_alike_iff (cfg : StoreConfig) {key : String} {ops : List TransactionOp}
    (h : ∀ op ∈ ops, op.resets = false) (hkey : ∀ op ∈ ops, op.cell.1 = key) :
    execEntry ops none = directEntry cfg ops none ↔ ∀ next ∈ ops.head?, next.Creates cfg := by
  cases ops with
  | nil => simp [execEntry, directEntry]
  | cons op ops =>
      have hrest := fun op hop => h op (List.mem_cons_of_mem _ hop)
      have hkeys := fun op hop => hkey op (List.mem_cons_of_mem _ hop)
      show execEntry ops (op.cell.2.onEntry none)
        = directEntry cfg ops ((op.directCell cfg).2.onEntry none) ↔ _
      simp only [List.head?_cons, Option.mem_some_iff, forall_eq']
      cases op with
      | set k v x => cases h _ List.mem_cons_self
      | delete k => cases h _ List.mem_cons_self
      | incr k | decr k | incrBy k amount =>
          refine iff_of_false (refused_differs hrest hkeys (a := ⟨_, none⟩) ?_) not_false
          exact fun text htext => by cases htext
      | append k more =>
          obtain rfl : k = key := hkey _ List.mem_cons_self
          by_cases hvalid : cfg.Valid k (.str more)
          · rw [append_creates hvalid]
            exact iff_of_true ((present_alike_iff cfg hrest).mpr rfl) hvalid
          · rw [append_refused hvalid]
            refine iff_of_false (refused_differs hrest hkeys (a := ⟨_, none⟩) ?_) hvalid
            intro text htext
            cases htext
            exact hvalid

/-- The two ends at one key, from the same entry, or from any two where a SET or DELETE follows. -/
theorem entries_eq_iff {key : String} {ops : List TransactionOp} (hkey : ∀ op ∈ ops, op.cell.1 = key) :
    ∀ {x e : Option ValueWithTTL}, (ops.any resets = false → x = e) →
      (execEntry ops x = directEntry cfg ops e ↔ Alike cfg ops e) := by
  induction ops with
  | nil =>
      intro x e hxe
      exact iff_of_true (hxe rfl) trivial
  | cons op ops ih =>
      intro x e hxe
      have hkeys := fun op hop => hkey op (List.mem_cons_of_mem _ hop)
      show execEntry ops (op.cell.2.onEntry x)
        = directEntry cfg ops ((op.directCell cfg).2.onEntry e) ↔ _
      rw [Alike]
      split
      · next hlater => exact ih hkeys fun hnone => by rw [hlater] at hnone; cases hnone
      · next hlast =>
          have hrest : ∀ op ∈ ops, op.resets = false := by simpa using hlast
          have hsame : op.resets = false → x = e := fun hop =>
            hxe (by simpa [hop] using hlast)
          have hfirst : op.resets = false → (execEntry ops (op.cell.2.onEntry x)
              = directEntry cfg ops ((op.directCell cfg).2.onEntry e) ↔ e ≠ none ∨ op.Creates cfg) := by
            intro hop
            rw [hsame hop]
            have hall : ∀ op' ∈ op :: ops, op'.resets = false := by
              intro op' hop'
              rcases List.mem_cons.mp hop' with rfl | hop'
              · exact hop
              · exact hrest op' hop'
            cases e with
            | some entry =>
                exact iff_of_true ((present_alike_iff cfg hall).mpr rfl) (.inl (by simp))
            | none => exact (missing_alike_iff cfg hall hkey).trans (by simp)
          cases op with
          | set k v t =>
              obtain rfl : k = key := hkey _ List.mem_cons_self
              show execEntry ops (some ⟨v, t⟩)
                = directEntry cfg ops ((CellOp.assignIf cfg false k v t).onEntry e)
                ↔ cfg.Valid k v ∨ e = some ⟨v, t⟩
              by_cases hvalid : cfg.Valid k v
              · rw [CellOp.assignIf, if_pos ⟨hvalid, rfl⟩]
                exact iff_of_true ((present_alike_iff cfg hrest).mpr rfl) (.inl hvalid)
              · rw [CellOp.assignIf, if_neg (fun h => hvalid h.1), CellOp.onEntry_nop]
                simp only [hvalid, false_or]
                cases e with
                | some entry => rw [present_alike_iff cfg hrest, Option.some_inj, eq_comm]
                | none =>
                    refine iff_of_false (refused_differs hrest hkeys (a := ⟨v, t⟩) ?_) (by simp)
                    intro text htext
                    rw [← htext]
                    exact hvalid
          | delete k => exact missing_alike_iff cfg hrest hkeys
          | incr k | decr k | incrBy k amount | append k more => exact hfirst rfl

end

end TransactionOp

namespace KvStore

/-! ## Queues -/

/-- The operations of the queue on one key. -/
def opsOn (ops : List TransactionOp) (k : String) : List TransactionOp :=
  ops.filter fun op => op.cell.1 = k

theorem run_cells_apply {cell : TransactionOp → String × CellOp}
    (hcell : ∀ op, (cell op).1 = op.cell.1) (ops : List TransactionOp)
    (m : String → Option ValueWithTTL) (k : String) :
    run (entryUpdates (ops.map cell)) m k
      = (opsOn ops k).foldl (fun e op => (cell op).2.onEntry e) (m k) := by
  have hfilter : (entryUpdates (ops.map cell)).filter (fun u => u.key = k)
      = (opsOn ops k).map fun op => ⟨(cell op).1, (cell op).2.onEntry, (cell op).2.bytes⟩ := by
    rw [entryUpdates, List.map_map, List.filter_map, opsOn]
    congr 1
    apply List.filter_congr
    intro op _
    simp [hcell]
  rw [run_apply, hfilter, List.foldl_map]

theorem execOps_contents_apply (ops : List TransactionOp) (s : KvStore) (k : String) :
    (execOps s ops).2.contents k = TransactionOp.execEntry (opsOn ops k) (s.contents k) := by
  rw [execOps_contents, run_cells_apply fun _ => rfl]
  rfl

/-- The method that corresponds to the operation; a `set` with an expiry is the `set_with_ttl` that
gives it. -/
def directly (s : KvStore) (now : Nat) : TransactionOp → KvStore
  | .set key value expiresAt => (s.setWithExpiry now key value expiresAt).2
  | .delete key => (s.delete now key).2
  | .incr key => (s.incr key).2
  | .decr key => (s.decr key).2
  | .incrBy key amount => (s.incrby key amount).2
  | .append key value => (s.append now key value).2

/-- The direct calls, in order. -/
def directs (s : KvStore) (now : Nat) (ops : List TransactionOp) : KvStore :=
  ops.foldl (fun s op => s.directly now op) s

/-- Nothing is evicted. -/
def Uncapped (s : KvStore) : Prop :=
  s.config.maxMemoryBytes = 0 ∨ s.config.lruEvictionEnabled = false

theorem Uncapped.fits {s : KvStore} (h : s.Uncapped) (bytes : Nat) : s.Fits bytes := by
  rcases h with h | h
  · exact .inl h
  · exact .inr (.inl h)

theorem directly_moves {s : KvStore} (now : Nat) (htx : s.inTransaction = false) (hcap : s.Uncapped)
    (op : TransactionOp) : Moves s (s.directly now op) [op.directCell s.config] := by
  cases op with
  | set key value expiresAt =>
      have hmoves := setWithExpiry_moves s key now value expiresAt (hcap.fits _)
      rw [htx] at hmoves
      exact hmoves
  | delete key =>
      have hmoves := delete_moves s key now
      rw [htx] at hmoves
      exact hmoves
  | incr key => exact addToInt_moves s key 1
  | decr key => exact addToInt_moves s key (-1)
  | incrBy key amount => exact addToInt_moves s key amount
  | append key value =>
      have hmoves := append_moves s key now value (hcap.fits _)
      rw [htx] at hmoves
      exact hmoves

theorem directs_moves (now : Nat) (ops : List TransactionOp) :
    ∀ {s : KvStore}, s.inTransaction = false → s.Uncapped →
      Moves s (s.directs now ops) (ops.map (TransactionOp.directCell s.config)) := by
  induction ops with
  | nil => exact fun _ _ => Moves.refl _
  | cons op ops ih =>
      intro s htx hcap
      have hone := directly_moves now htx hcap op
      have hrest := ih (s := s.directly now op) (hone.inTransaction.trans htx)
        (by unfold Uncapped; rw [hone.config]; exact hcap)
      rw [hone.config] at hrest
      exact hone.trans hrest

theorem directs_contents_apply {s : KvStore} (now : Nat) (htx : s.inTransaction = false)
    (hcap : s.Uncapped) (ops : List TransactionOp) (k : String) :
    (s.directs now ops).contents k
      = TransactionOp.directEntry s.config (opsOn ops k) (s.contents k) := by
  rw [(directs_moves now ops htx hcap).contents,
    run_cells_apply (TransactionOp.directCell_fst s.config)]
  rfl

/-- The operations are put into the queue one by one. -/
def queueAll (s : KvStore) (ops : List TransactionOp) : KvStore :=
  ops.foldl (fun s op => (s.queueOperation op).2) s

theorem queueAll_eq (ops : List TransactionOp) :
    ∀ {s : KvStore} {queue : List TransactionOp}, s.transactionQueue = some queue →
      s.queueAll ops = { s with transactionQueue := some (queue ++ ops) } := by
  induction ops with
  | nil =>
      intro s queue hqueue
      rw [List.append_nil, ← hqueue]
      rfl
  | cons op ops ih =>
      intro s queue hqueue
      have hone : (s.queueOperation op).2 = { s with transactionQueue := some (queue ++ [op]) } := by
        unfold queueOperation
        rw [hqueue]
      show (s.queueOperation op).2.queueAll ops = _
      rw [hone, ih rfl, List.append_assoc]
      rfl

/-- EXEC after MULTI and the operations. -/
def execQueued (s : KvStore) (ops : List TransactionOp) : Except KvStoreError (List String) × KvStore :=
  (s.multi.2.queueAll ops).exec

theorem execQueued_eq {s : KvStore} (htx : s.inTransaction = false) (ops : List TransactionOp) :
    s.execQueued ops = (.ok (execOps s ops).1, (execOps s ops).2) := by
  have hnone : s.transactionQueue = none := by simpa [inTransaction] using htx
  have hmulti : s.multi.2 = { s with transactionQueue := some [] } := by
    unfold multi
    rw [hnone]
    rfl
  unfold execQueued exec
  rw [hmulti, queueAll_eq ops rfl]
  simp only [List.nil_append]
  rw [show ({ s with transactionQueue := none } : KvStore) = s by rw [← hnone]]

theorem execOps_length (ops : List TransactionOp) :
    ∀ s : KvStore, (execOps s ops).1.length = ops.length := by
  induction ops with
  | nil => exact fun s => rfl
  | cons op ops ih => exact fun s => congrArg Nat.succ (ih (s.execOp op).2)

/-- The line of each operation is that of the operation alone, behind those before it. -/
theorem execOps_result (ops : List TransactionOp) :
    ∀ (s : KvStore) (i : Nat), (execOps s ops).1[i]?
      = (ops[i]?).map fun op => ((execOps s (ops.take i)).2.execOp op).1 := by
  induction ops with
  | nil => intro s i; rfl
  | cons op ops ih =>
      intro s i
      cases i with
      | zero => rfl
      | succ i =>
          show (execOps (s.execOp op).2 ops).1[i]? = _
          rw [ih]
          rfl

/-- EXEC closes the transaction, answers with one line for each operation, and leaves the map that the
direct calls leave. -/
structure ExecutesDirectly (s : KvStore) (now : Nat) (ops : List TransactionOp) : Prop where
  closed : (s.execQueued ops).2.inTransaction = false
  results : ∃ lines, (s.execQueued ops).1 = .ok lines ∧ lines.length = ops.length ∧
    ∀ i, lines[i]? = (ops[i]?).map fun op => ((execOps s (ops.take i)).2.execOp op).1
  contents : (s.execQueued ops).2.contents = (s.directs now ops).contents

/-- For every store without a cap, every clock and every queue: EXEC equals the direct calls if and only
if, key by key, the operations on the key are alike. -/
theorem exec_eq_directs_iff (s : KvStore) (now : Nat) (ops : List TransactionOp)
    (htx : s.inTransaction = false) (hcap : s.Uncapped) :
    s.ExecutesDirectly now ops ↔
      ∀ k, TransactionOp.Alike s.config (opsOn ops k) (s.contents k) := by
  have hkey : ∀ k, (execOps s ops).2.contents k = (s.directs now ops).contents k ↔
      TransactionOp.Alike s.config (opsOn ops k) (s.contents k) := by
    intro k
    rw [execOps_contents_apply, directs_contents_apply now htx hcap]
    have hon : ∀ op ∈ opsOn ops k, op.cell.1 = k := by
      intro op hop
      simpa [opsOn] using (List.mem_filter.mp hop).2
    exact TransactionOp.entries_eq_iff hon fun _ => rfl
  have hexec := execQueued_eq htx ops
  constructor
  · intro h k
    have hcontents := h.contents
    rw [hexec] at hcontents
    exact (hkey k).mp (congrFun hcontents k)
  · intro h
    refine ⟨?_, ⟨(execOps s ops).1, by rw [hexec], ?_, execOps_result ops s⟩, ?_⟩
    · rw [hexec]
      have hframe := (execOps_frame ops s).transactionQueue
      unfold inTransaction at htx ⊢
      rw [hframe]
      exact htx
    · exact execOps_length ops s
    · rw [hexec]
      exact funext fun k => (hkey k).mpr (h k)

/-- A `set` and an INCR of its key. -/
theorem exec_eq_directs_iff_counter :
    (withConfig { maxMemoryBytes := 0 }).ExecutesDirectly 0 [.set "k" (.int 1) none, .incr "k"] ↔
      ∀ k, TransactionOp.Alike (withConfig { maxMemoryBytes := 0 }).config
        (opsOn [.set "k" (.int 1) none, .incr "k"] k)
        ((withConfig { maxMemoryBytes := 0 }).contents k) :=
  exec_eq_directs_iff _ 0 _ rfl (.inl rfl)

/-- INCR of a missing key: EXEC makes a counter, and the direct call fails. -/
theorem exec_creates_counter : (withConfig { maxMemoryBytes := 0 }).inTransaction = false ∧
    (withConfig { maxMemoryBytes := 0 }).Uncapped ∧
    ¬ (withConfig { maxMemoryBytes := 0 }).ExecutesDirectly 0 [.incr "k"] := by
  refine ⟨rfl, .inl rfl, fun h => ?_⟩
  have hexec : ((withConfig { maxMemoryBytes := 0 }).execQueued [.incr "k"]).2.contents "k"
      = some ⟨.int 1, none⟩ := by decide +kernel
  have hdirect : ((withConfig { maxMemoryBytes := 0 }).directs 0 [.incr "k"]).contents "k" = none := by
    decide +kernel
  have hsame := congrFun h.contents "k"
  exact absurd (hexec.symm.trans (hsame.trans hdirect)) (by simp)

end KvStore

end Daikon
