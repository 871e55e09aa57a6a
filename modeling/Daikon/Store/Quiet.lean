/-
# Daikon.Store.Quiet -- the store without its notifications

Keyspace events and the switch that turns them on are the only part of the store that its other
operations write and never read. `quiet` forgets both. A call then does the same with or without
them (`write_quiet_at`), and, if it sets no expiry, at whatever clock it is made (`write_quiet`): the clock
reaches the store only through expiry and through the time stamps of the events.

The switch has to be forgotten together with the events, for a store with the switch on goes on to collect
events. What is left is everything that a client or a log can see of a store but the notifications, and two
stores with the same `quiet` are interchangeable in every result about values, expiries, counters and
eviction.
-/
import Daikon.Store.Write

namespace Daikon

/-- The clock does not reach the entries through this call. -/
def Write.Timeless : Write → Prop
  | .setWithTtl .. | .expire .. => False
  | _ => True

namespace KvStore

/-- The store with no events pending and the notifications off. -/
def quiet (s : KvStore) : KvStore :=
  { s with
    pendingKeyspaceEvents := []
    config := { s.config with keyspaceNotificationsEnabled := false } }

/-- A result whose store is made quiet. -/
def quietly {α : Type} (r : α × KvStore) : α × KvStore := (r.1, r.2.quiet)

@[simp] theorem quietly_mk {α : Type} (a : α) (s : KvStore) : quietly (a, s) = (a, s.quiet) := rfl

@[simp] theorem quiet_quiet (s : KvStore) : s.quiet.quiet = s.quiet := rfl

@[simp] theorem quiet_store (s : KvStore) : s.quiet.store = s.store := rfl

@[simp] theorem quiet_transactionQueue (s : KvStore) :
    s.quiet.transactionQueue = s.transactionQueue := rfl

@[simp] theorem quiet_inTransaction (s : KvStore) : s.quiet.inTransaction = s.inTransaction := rfl

@[simp] theorem quiet_values (s : KvStore) : s.quiet.values = s.values := rfl

@[simp] theorem emitKeyspaceEvent_quiet (s : KvStore) (now : Nat) (kind : KeyspaceEventKind)
    (key : String) : (s.emitKeyspaceEvent now kind key).quiet = s.quiet := by
  unfold emitKeyspaceEvent; split <;> rfl

@[simp] theorem quiet_emitKeyspaceEvent (s : KvStore) (now : Nat) (kind : KeyspaceEventKind)
    (key : String) : s.quiet.emitKeyspaceEvent now kind key = s.quiet := rfl

theorem enforceLoop_quiet (now now' : Nat) (keys : List String) :
    ∀ s : KvStore, enforceLoop now' keys s.quiet = (enforceLoop now keys s).quiet := by
  induction keys with
  | nil => intro s; rfl
  | cons lruKey rest ih =>
      intro s
      -- the clock of a turn is in its event only
      have hturn : s.quiet.evictHead now' lruKey rest = (s.evictHead now lruKey rest).quiet := by
        unfold evictHead
        rw [quiet_store]
        cases s.store[lruKey]? with
        | none => rfl
        | some entry =>
            have hrest : ∀ t : KvStore,
                ({ t with lruOrder := rest } : KvStore).quiet = { t.quiet with lruOrder := rest } :=
              fun _ => rfl
            simp only [hrest, emitKeyspaceEvent_quiet]
            rfl
      unfold enforceLoop
      by_cases hover : s.stats.memoryBytes > s.config.maxMemoryBytes
      · have hover' : s.quiet.stats.memoryBytes > s.quiet.config.maxMemoryBytes := hover
        rw [if_pos hover, if_pos hover', hturn]
        exact ih _
      · have hover' : ¬ s.quiet.stats.memoryBytes > s.quiet.config.maxMemoryBytes := hover
        rw [if_neg hover, if_neg hover']

theorem enforceMemoryLimit_quiet (s : KvStore) (now now' : Nat) :
    s.quiet.enforceMemoryLimit now' = (s.enforceMemoryLimit now).quiet := by
  unfold enforceMemoryLimit
  by_cases hcap : s.config.maxMemoryBytes = 0
  · have hcap' : s.quiet.config.maxMemoryBytes = 0 := hcap
    rw [if_pos hcap, if_pos hcap']
  · have hcap' : ¬ s.quiet.config.maxMemoryBytes = 0 := hcap
    rw [if_neg hcap, if_neg hcap']
    exact enforceLoop_quiet now now' _ s

theorem queueOperation_quiet (s : KvStore) (op : TransactionOp) :
    s.quiet.queueOperation op = quietly (s.queueOperation op) := by
  unfold queueOperation
  rw [quiet_transactionQueue]
  cases s.transactionQueue <;> rfl

theorem setWithExpiry_quiet (s : KvStore) (now now' : Nat) (key : String) (value : Value)
    (expiresAt : Option Nat) :
    s.quiet.setWithExpiry now' key value expiresAt
      = quietly (s.setWithExpiry now key value expiresAt) := by
  unfold setWithExpiry
  rw [show s.quiet.validateKey key = s.validateKey key from rfl,
    show s.quiet.validateValue value = s.validateValue value from rfl]
  cases s.validateKey key with
  | error e => rfl
  | ok _ =>
      cases s.validateValue value with
      | error e => rfl
      | ok _ =>
          simp only
          by_cases htx : s.inTransaction = true
          · have htx' : s.quiet.inTransaction = true := htx
            rw [if_pos htx, if_pos htx']
            exact queueOperation_quiet s _
          · have htx' : ¬ s.quiet.inTransaction = true := htx
            rw [if_neg htx, if_neg htx', quietly_mk, emitKeyspaceEvent_quiet]
            by_cases hcap : s.config.maxMemoryBytes > 0 ∧ s.config.lruEvictionEnabled
            · have hcap' : s.quiet.config.maxMemoryBytes > 0 ∧ s.quiet.config.lruEvictionEnabled := hcap
              rw [if_pos hcap, if_pos hcap',
                show s.quiet.insertEntry key ⟨value, expiresAt⟩ (estimateValueSize value)
                  = (s.insertEntry key ⟨value, expiresAt⟩ (estimateValueSize value)).quiet from rfl,
                enforceMemoryLimit_quiet _ now now']
              rfl
            · have hcap' : ¬ (s.quiet.config.maxMemoryBytes > 0 ∧ s.quiet.config.lruEvictionEnabled) :=
                hcap
              rw [if_neg hcap, if_neg hcap']
              rfl

theorem addToInt_quiet (s : KvStore) (key : String) (amount : Int64) :
    s.quiet.addToInt key amount = quietly (s.addToInt key amount) := by
  unfold addToInt
  rw [quiet_store]
  split <;> rfl

theorem delete_quiet (s : KvStore) (now now' : Nat) (key : String) :
    s.quiet.delete now' key = quietly (s.delete now key) := by
  unfold delete
  rw [quiet_store]
  by_cases htx : s.inTransaction = true
  · have htx' : s.quiet.inTransaction = true := htx
    rw [if_pos htx, if_pos htx', queueOperation_quiet]
    rfl
  · have htx' : ¬ s.quiet.inTransaction = true := htx
    rw [if_neg htx, if_neg htx']
    cases s.store[key]? with
    | none => rfl
    | some entry => simp only [quietly_mk, emitKeyspaceEvent_quiet]; rfl

theorem append_quiet (s : KvStore) (now now' : Nat) (key value : String) :
    s.quiet.append now' key value = quietly (s.append now key value) := by
  unfold append
  rw [quiet_store, show s.quiet.set now' key (.str value) = quietly (s.set now key (.str value)) from
    setWithExpiry_quiet s now now' key (.str value) none]
  split
  · rfl
  · rfl
  · rcases s.set now key (.str value) with ⟨_ | _, s'⟩ <;> rfl

theorem getset_quiet (s : KvStore) (now now' : Nat) (key : String) (value : Value) :
    s.quiet.getset now' key value = quietly (s.getset now key value) := by
  unfold getset
  rw [quiet_store, show s.quiet.set now' key value = quietly (s.set now key value) from
    setWithExpiry_quiet s now now' key value none]
  rcases s.set now key value with ⟨_ | _, s'⟩ <;> rfl

theorem mset_quiet (now now' : Nat) (pairs : List (String × String)) :
    ∀ s : KvStore, s.quiet.mset now' pairs = quietly (s.mset now pairs) := by
  induction pairs with
  | nil => intro s; rfl
  | cons pair pairs ih =>
      intro s
      obtain ⟨key, value⟩ := pair
      unfold mset
      rw [show s.quiet.set now' key (.str value) = quietly (s.set now key (.str value)) from
        setWithExpiry_quiet s now now' key (.str value) none]
      rcases s.set now key (.str value) with ⟨_ | _, s'⟩
      · rfl
      · exact ih s'

theorem persist_quiet (s : KvStore) (now now' : Nat) (key : String) :
    s.quiet.persist now' key = quietly (s.persist now key) := by
  unfold persist
  rw [quiet_store]
  cases s.store[key]? with
  | none => rfl
  | some entry =>
      simp only
      split
      · rfl
      · simp only [quietly_mk, emitKeyspaceEvent_quiet]; rfl

theorem pushWith_quiet (push : List String → List String → List String) (s : KvStore) (key : String)
    (values : List String) :
    s.quiet.pushWith push key values = quietly (s.pushWith push key values) := by
  unfold pushWith
  rw [quiet_store, show s.quiet.validateKey key = s.validateKey key from rfl]
  cases s.validateKey key with
  | error e => rfl
  | ok _ => simp only; split <;> rfl

theorem popWith_quiet (pop : List String → Option (String × List String)) (s : KvStore)
    (key : String) : s.quiet.popWith pop key = quietly (s.popWith pop key) := by
  unfold popWith
  rw [quiet_store]
  split
  · split <;> rfl
  · rfl
  · rfl

theorem hset_quiet (s : KvStore) (key : String) (fields : Fields) :
    s.quiet.hset key fields = quietly (s.hset key fields) := by
  unfold hset
  rw [quiet_store, show s.quiet.validateKey key = s.validateKey key from rfl]
  cases s.validateKey key with
  | error e => rfl
  | ok _ => simp only; split <;> rfl

theorem hdel_quiet (s : KvStore) (key : String) (fields : List String) :
    s.quiet.hdel key fields = quietly (s.hdel key fields) := by
  unfold hdel
  rw [quiet_store]
  split <;> rfl

theorem addToField_quiet {N : Type} (parse : String → Option N) (zero : N) (add : N → N → N)
    (show_ : N → String) (s : KvStore) (key field : String) (amount : N) :
    s.quiet.addToField parse zero add show_ key field amount
      = quietly (s.addToField parse zero add show_ key field amount) := by
  unfold addToField
  rw [quiet_store, show s.quiet.validateKey key = s.validateKey key from rfl]
  cases s.validateKey key with
  | error e => rfl
  | ok _ => simp only; split <;> rfl

theorem pfadd_quiet (rt : Runtime) (s : KvStore) (key : String) (values : List String) :
    s.quiet.pfadd rt key values = quietly (s.pfadd rt key values) := by
  unfold pfadd
  rw [quiet_store, show s.quiet.validateKey key = s.validateKey key from rfl]
  cases s.validateKey key with
  | error e => rfl
  | ok _ =>
      simp only
      split
      · rfl
      · split <;> rfl

theorem mergeSources_quiet (s : KvStore) (destination : String) (sources : List String) :
    ∀ merged, s.quiet.mergeSources destination sources merged
      = s.mergeSources destination sources merged := by
  induction sources with
  | nil => intro merged; rfl
  | cons source sources ih =>
      intro merged
      unfold mergeSources
      rw [quiet_store]
      simp only [ih]

theorem pfmerge_quiet (s : KvStore) (destination : String) (sources : List String) :
    s.quiet.pfmerge destination sources = quietly (s.pfmerge destination sources) := by
  unfold pfmerge
  rw [quiet_store, show s.quiet.validateKey destination = s.validateKey destination from rfl,
    funext (mergeSources_quiet s destination sources)]
  cases s.validateKey destination with
  | error e => rfl
  | ok _ =>
      simp only
      split
      · rfl
      · split
        · rfl
        · split <;> rfl

/-- A call that sets no expiry does the same on the quiet store, at any clock. -/
theorem write_quiet (rt : Runtime) (s : KvStore) (now now' : Nat) {w : Write} (hw : w.Timeless) :
    s.quiet.write rt now' w = quietly (s.write rt now w) := by
  cases w with
  | set key value => exact congrArg (reply _) (setWithExpiry_quiet s now now' key value none)
  | setWithTtl key value ttl => exact hw.elim
  | delete key =>
      simp only [write, delete_quiet s now now' key]
      rfl
  | incr key => exact congrArg (reply _) (addToInt_quiet s key 1)
  | decr key => exact congrArg (reply _) (addToInt_quiet s key (-1))
  | incrby key amount => exact congrArg (reply _) (addToInt_quiet s key amount)
  | append key value => exact congrArg (reply _) (append_quiet s now now' key value)
  | getset key value => exact congrArg (reply _) (getset_quiet s now now' key value)
  | mset pairs => exact congrArg (reply _) (mset_quiet now now' pairs s)
  | expire key ttl => exact hw.elim
  | persist key =>
      simp only [write, persist_quiet s now now' key]
      rfl
  | pfadd key values => exact congrArg (reply _) (pfadd_quiet rt s key values)
  | pfmerge destination sources => exact congrArg (reply _) (pfmerge_quiet s destination sources)
  | lpush key values => exact congrArg (reply _) (pushWith_quiet pushFront s key values)
  | rpush key values => exact congrArg (reply _) (pushWith_quiet (· ++ ·) s key values)
  | lpop key => exact congrArg (reply _) (popWith_quiet popFront s key)
  | rpop key => exact congrArg (reply _) (popWith_quiet popBack s key)
  | hset key fields => exact congrArg (reply _) (hset_quiet s key fields)
  | hdel key fields => exact congrArg (reply _) (hdel_quiet s key fields)
  | hincrby key field amount =>
      exact congrArg (reply _) (addToField_quiet parseI64 0 (· + ·) toString s key field amount)
  | hincrbyfloat key field amount =>
      exact congrArg (reply _)
        (addToField_quiet rt.f64Parse 0.0 (· + ·) rt.f64ToString s key field amount)

theorem expire_quiet (s : KvStore) (now : Nat) (key : String) (ttl : Nat) :
    s.quiet.expire now key ttl = quietly (s.expire now key ttl) := by
  unfold expire
  rw [quiet_store]
  cases s.store[key]? with
  | none => rfl
  | some entry =>
      simp only
      split
      · rfl
      · simp only [quietly_mk, emitKeyspaceEvent_quiet]; rfl

/-- At the same clock, every call does the same on the quiet store. -/
theorem write_quiet_at (rt : Runtime) (s : KvStore) (now : Nat) (w : Write) :
    s.quiet.write rt now w = quietly (s.write rt now w) := by
  cases w with
  | setWithTtl key value ttl =>
      exact congrArg (reply _) (setWithExpiry_quiet s now now key value (checkedAdd now ttl))
  | expire key ttl =>
      simp only [write, expire_quiet s now key ttl]
      rfl
  | _ =>
      refine write_quiet rt s now now ?_
      trivial

/-- Stores that differ in the events only answer a call alike, and still differ in these only. -/
theorem write_alike (rt : Runtime) {s t : KvStore} (h : s.quiet = t.quiet) (now : Nat) (w : Write) :
    (s.write rt now w).1 = (t.write rt now w).1 ∧
      (s.write rt now w).2.quiet = (t.write rt now w).2.quiet := by
  have hs := write_quiet_at rt s now w
  rw [h, write_quiet_at rt t now w] at hs
  exact ⟨(congrArg Prod.fst hs).symm, (congrArg Prod.snd hs).symm⟩

end KvStore

end Daikon
