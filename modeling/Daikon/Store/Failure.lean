/-
# Daikon.Store.Failure -- what a call that fails leaves behind

Each method but one makes all its checks before its first change, so a call that returns an error leaves
the store as it was (`failed_unchanged`). `mset` checks pair by pair: the pairs before the one it refuses
are set, or queued (`mset_unchanged_iff`).

What is compared is the whole store: entries, counters, recency list, queue and pending events. For a method
of one key this is a matter of looking at its exits, each of which hands back the store that it was given
(`Clean`). The methods whose answer is no `Result` do not fail at all.

For `mset` the condition cannot be about the answer, which is an error in any case. The pairs before the
refused one leave something behind unless there are none, because an accepted pair is counted as a write, or
queued, and neither is ever taken back (`set_written`).
-/
import Daikon.Store.Sketch
import Daikon.Store.Methods
import Daikon.Store.Text

namespace Daikon

namespace KvStore

/-- A result that is an error comes with the store as it was. -/
def Clean {α : Type} (s : KvStore) (r : Except KvStoreError α × KvStore) : Prop :=
  ∀ e, r.1 = .error e → r.2 = s

section

variable {α β : Type} {s : KvStore} {key : String}

theorem Clean.of_ok {r : Except KvStoreError α × KvStore} {a : α} (h : r.1 = .ok a) : s.Clean r := by
  intro e he
  rw [h] at he
  cases he

theorem Clean.of_same {r : Except KvStoreError α × KvStore} (h : r.2 = s) : s.Clean r := fun _ _ => h

/-- What is made of the answer does not matter. -/
theorem Clean.map {r : Except KvStoreError α × KvStore} (h : s.Clean r) (f : α → β) :
    s.Clean (r.1.map f, r.2) := by
  intro e he
  cases hr : r.1 with
  | ok a => rw [hr] at he; cases he
  | error e' => exact h e' hr

theorem Clean.validated {rest : Except KvStoreError α × KvStore} (h : s.Clean rest) :
    s.Clean (match s.validateKey key with
      | .error e => (Except.error e, s)
      | .ok () => rest) := by
  cases s.validateKey key with
  | error e => exact .of_same rfl
  | ok u => exact h

/-- A method that answers for a put. -/
theorem Clean.answered {r : Except KvStoreError Unit × KvStore} (h : s.Clean r) (a : α) :
    s.Clean (match r with
      | (.error e, s') => (Except.error e, s')
      | (.ok (), s') => (.ok a, s')) := by
  obtain ⟨answer, s'⟩ := r
  cases answer with
  | error e => exact fun _ _ => h e rfl
  | ok u => exact .of_ok rfl

/-! ## Method by method -/

theorem queueOperation_clean (op : TransactionOp) : s.Clean (s.queueOperation op) := by
  unfold queueOperation
  split
  · exact .of_ok rfl
  · exact .of_same rfl

theorem setWithExpiry_clean (now : Nat) (value : Value) (expiresAt : Option Nat) :
    s.Clean (s.setWithExpiry now key value expiresAt) := by
  unfold setWithExpiry
  refine Clean.validated ?_
  split
  · exact .of_same rfl
  · split
    · exact queueOperation_clean _
    · exact .of_ok rfl

theorem addToInt_clean (amount : Int64) : s.Clean (s.addToInt key amount) := by
  unfold addToInt
  split
  · exact .of_ok rfl
  · exact .of_same rfl
  · exact .of_same rfl

theorem append_clean (now : Nat) (value : String) : s.Clean (s.append now key value) := by
  unfold append
  split
  · exact .of_ok rfl
  · exact .of_same rfl
  · exact (setWithExpiry_clean now (.str value) none).answered _

theorem getset_clean (now : Nat) (value : Value) : s.Clean (s.getset now key value) :=
  (setWithExpiry_clean now value none).answered _

theorem pfreserve_clean (precision : Nat) : s.Clean (s.pfreserve key precision) := by
  rcases pfreserve_cases s key precision with ⟨e, he⟩ | ⟨-, -, heq⟩
  · exact .of_same (congrArg Prod.snd he)
  · exact .of_ok (congrArg Prod.fst heq)

theorem pfadd_clean (rt : Runtime) (values : List String) : s.Clean (s.pfadd rt key values) := by
  unfold pfadd
  refine Clean.validated ?_
  split
  · exact .of_same rfl
  · split
    · exact .of_ok rfl
    · exact .of_same rfl
    · exact .of_ok rfl

theorem pfmerge_clean (sources : List String) : s.Clean (s.pfmerge key sources) := by
  rcases pfmerge_cases s key sources with ⟨e, he⟩ | ⟨merged, -, -, -, heq⟩
  · exact .of_same (congrArg Prod.snd he)
  · exact .of_ok (congrArg Prod.fst heq)

theorem pushWith_clean (push : List String → List String → List String) (values : List String) :
    s.Clean (s.pushWith push key values) := by
  unfold pushWith
  refine Clean.validated ?_
  split
  · exact .of_ok rfl
  · exact .of_same rfl
  · exact .of_ok rfl

theorem popWith_clean (pop : List String → Option (String × List String)) :
    s.Clean (s.popWith pop key) := by
  unfold popWith
  split
  · split <;> exact .of_ok rfl
  · exact .of_same rfl
  · exact .of_ok rfl

theorem hset_clean (fields : Fields) : s.Clean (s.hset key fields) := by
  unfold hset
  refine Clean.validated ?_
  split
  · exact .of_ok rfl
  · exact .of_same rfl
  · exact .of_ok rfl

theorem hdel_clean (fields : List String) : s.Clean (s.hdel key fields) := by
  unfold hdel
  split
  · exact .of_ok rfl
  · exact .of_same rfl
  · exact .of_ok rfl

theorem addToField_clean {N : Type} (parse : String → Option N) (zero : N) (add : N → N → N)
    (show_ : N → String) (field : String) (amount : N) :
    s.Clean (s.addToField parse zero add show_ key field amount) := by
  unfold addToField
  refine Clean.validated ?_
  split
  · exact .of_ok rfl
  · exact .of_same rfl
  · exact .of_ok rfl

end

/-! ## Every method but `mset` -/

end KvStore

/-- The method is not a batch. -/
def Method.Single : Method → Prop
  | .write (.mset _) => False
  | _ => True

namespace KvStore

/-- Whether a call is answered with an error. -/
def answer (rt : Runtime) (s : KvStore) (c : Nat × Method) : Except KvStoreError Unit :=
  match c.2 with
  | .write w => (s.write rt c.1 w).1.map fun _ => ()
  | .pfreserve key precision => (s.pfreserve key precision).1
  | .multi => s.multi.1
  | .exec => s.exec.1.map fun _ => ()
  | .discard => s.discard.1
  | .queueOperation op => (s.queueOperation op).1
  | .cleanupExpired | .drainKeyspaceEvents | .resetStats | .setConfig _
  | .setKeyspaceNotificationsEnabled _ => .ok ()

theorem write_clean (rt : Runtime) (s : KvStore) (now : Nat) (w : Write) (hw : (Method.write w).Single) :
    s.Clean (s.write rt now w) := by
  cases w with
  | set key value => exact (setWithExpiry_clean now value none).map _
  | setWithTtl key value ttl => exact (setWithExpiry_clean now value _).map _
  | delete key => exact .of_ok rfl
  | incr key => exact (addToInt_clean 1).map _
  | decr key => exact (addToInt_clean (-1)).map _
  | incrby key amount => exact (addToInt_clean amount).map _
  | append key value => exact (append_clean now value).map _
  | getset key value => exact (getset_clean now value).map _
  | mset pairs => exact hw.elim
  | expire key ttl => exact .of_ok rfl
  | persist key => exact .of_ok rfl
  | pfadd key values => exact (pfadd_clean rt values).map _
  | pfmerge destination sources => exact (pfmerge_clean sources).map _
  | lpush key values => exact (pushWith_clean pushFront values).map _
  | rpush key values => exact (pushWith_clean (· ++ ·) values).map _
  | lpop key => exact (popWith_clean popFront).map _
  | rpop key => exact (popWith_clean popBack).map _
  | hset key fields => exact (hset_clean fields).map _
  | hdel key fields => exact (hdel_clean fields).map _
  | hincrby key field amount =>
      exact (addToField_clean parseI64 0 (· + ·) toString field amount).map _
  | hincrbyfloat key field amount =>
      exact (addToField_clean rt.f64Parse 0.0 (· + ·) rt.f64ToString field amount).map _

theorem multi_clean (s : KvStore) : s.Clean s.multi := by
  unfold multi
  split
  · exact .of_same rfl
  · exact .of_ok rfl

theorem exec_clean (s : KvStore) : s.Clean s.exec := by
  unfold exec
  split
  · exact .of_same rfl
  · exact .of_ok rfl

theorem discard_clean (s : KvStore) : s.Clean s.discard := by
  unfold discard
  split
  · exact .of_same rfl
  · exact .of_ok rfl

/-- A call of a method other than `mset` that returns an error leaves the whole store as it was. -/
theorem failed_unchanged (rt : Runtime) (s : KvStore) (c : Nat × Method) (hsingle : c.2.Single)
    {e : KvStoreError} (h : s.answer rt c = .error e) : s.call rt c = s := by
  obtain ⟨now, m⟩ := c
  cases m with
  | write w => exact (write_clean rt s now w hsingle).map (fun _ => ()) e h
  | pfreserve key precision => exact pfreserve_clean precision e h
  | multi => exact multi_clean s e h
  | exec => exact (exec_clean s).map (fun _ => ()) e h
  | discard => exact discard_clean s e h
  | queueOperation op => exact queueOperation_clean op e h
  | cleanupExpired | drainKeyspaceEvents | resetStats | setConfig config
  | setKeyspaceNotificationsEnabled enabled => cases h

/-- A text that expires, a list, and an open transaction with a queued `set`. -/
def busy : KvStore := calls .strings new
  [(0, .write (.setWithTtl "a" (.str "x") 60)), (0, .write (.rpush "l" ["u"])), (0, .multi),
    (0, .write (.set "b" (.str "y")))]

/-- A push to the text is refused, and list, text, expiry and queue are what they were. -/
theorem failed_unchanged_lpush : busy.call .strings (1, .write (.lpush "a" ["v"])) = busy :=
  failed_unchanged .strings busy (1, .write (.lpush "a" ["v"])) trivial
    (e := .typeMismatch "a" "List" "Str") (by decide +kernel)

/-! ## The batch -/

/-- A count of what was written or queued. -/
def written (s : KvStore) : Nat := s.stats.totalWrites + (s.transactionQueue.getD []).length

theorem evictHead_totalWrites (s : KvStore) (now : Nat) (lruKey : String) (rest : List String) :
    (s.evictHead now lruKey rest).stats.totalWrites = s.stats.totalWrites := by
  unfold evictHead
  split <;> simp

theorem enforceMemoryLimit_totalWrites (s : KvStore) (now : Nat) :
    (s.enforceMemoryLimit now).stats.totalWrites = s.stats.totalWrites :=
  enforceMemoryLimit_keeps (fun s => s.stats.totalWrites) (fun s => evictHead_totalWrites s now) s

/-- A put that is accepted is written or queued, whatever is evicted. -/
theorem set_written {s : KvStore} (now : Nat) {key : String} {value : Value}
    (hvalid : s.config.Valid key value) : (s.set now key value).2.written = s.written + 1 := by
  unfold set written
  cases htx : s.transactionQueue with
  | some queue =>
      rw [setWithExpiry_queued hvalid htx]
      simp
      omega
  | none =>
      rw [setWithExpiry_put hvalid htx]
      simp only [emitKeyspaceEvent_stats, emitKeyspaceEvent_transactionQueue]
      split <;> simp [enforceMemoryLimit_totalWrites, insertEntry, updateLru, htx]

theorem mset_written (now : Nat) (pairs : List (String × String)) :
    ∀ s : KvStore, s.written ≤ (s.mset now pairs).2.written := by
  induction pairs with
  | nil => exact fun s => Nat.le_refl _
  | cons pair pairs ih =>
      intro s
      rw [show pair = (pair.1, pair.2) from rfl, mset_cons_snd]
      split
      · next hvalid =>
          have hset := set_written now hvalid
          have hrest := ih (s.set now pair.1 (.str pair.2)).2
          omega
      · exact Nat.le_refl _

/-- A batch that is answered with an error leaves the store as it was, if and only if no pair of it is
refused or the first one is. -/
theorem mset_unchanged_iff (s : KvStore) (now : Nat) (pairs : List (String × String)) :
    (∀ e, (s.mset now pairs).1 = .error e → (s.mset now pairs).2 = s) ↔
      (∀ p ∈ pairs, s.config.Valid p.1 (.str p.2)) ∨
        ∃ p ∈ pairs.head?, ¬ s.config.Valid p.1 (.str p.2) := by
  constructor
  · intro hclean
    by_contra hnot
    obtain ⟨hsome, hfirst⟩ := not_or.mp hnot
    obtain ⟨e, herror⟩ : ∃ e, (s.mset now pairs).1 = .error e := by
      cases hr : (s.mset now pairs).1 with
      | error e => exact ⟨e, rfl⟩
      | ok u => exact absurd ((mset_ok_iff now pairs s).mp ⟨u, hr⟩) hsome
    have hsame := hclean e herror
    cases pairs with
    | nil => exact hsome (by simp)
    | cons pair pairs =>
        -- the first pair was written or queued
        have hvalid : s.config.Valid pair.1 (.str pair.2) := by simpa using hfirst
        have hset := set_written now hvalid
        have hrest := mset_written now pairs (s.set now pair.1 (.str pair.2)).2
        rw [show pair = (pair.1, pair.2) from rfl, mset_cons_snd, if_pos hvalid] at hsame
        rw [hsame] at hrest
        omega
  · rintro (hall | ⟨p, hp, hrefused⟩) e herror
    · obtain ⟨u, hok⟩ := (mset_ok_iff now pairs s).mpr hall
      rw [hok] at herror
      cases herror
    · cases pairs with
      | nil => cases hp
      | cons pair pairs =>
          obtain rfl : pair = p := Option.some.inj hp
          rw [show pair = (pair.1, pair.2) from rfl, mset_cons_snd, if_neg hrefused]

/-- A valid pair and one with an empty key. -/
theorem batch_half_set :
    let r := new.mset 0 [("valid", "value1"), ("", "value2")]
    r.1 = .error (.invalidKey "Key cannot be empty") ∧ new.contents "valid" = none ∧
      r.2.contents "valid" = some ⟨.str "value1", none⟩ := by
  decide +kernel

end KvStore

end Daikon
