/-
# Daikon.Wal.Interpret -- what the interpreters of the log do, as store calls

`replayed` is the call that startup replay makes of a logged operation, if it makes one, and `raw`
the call that recovery and replicas make. They differ only where a value was logged as text, and
agree when that text decodes to itself (`replayed_of_selfDecoding`). `replayOperation_ok_iff` and
`applyOperation_ok_iff` say exactly which operations stop an interpreter.

What is gained is that the three interpreters become three ways to choose a call for an operation, and the
rest of the development compares calls. `Replayable` and `Refused` are the exact conditions under which an
interpreter does not get past an operation; they are predicates of the operation, the limits and the store
before it, so that a whole log can be judged before it is carried out.
-/
import Daikon.Store.Refine
import Daikon.Wal.Entry

namespace Daikon

namespace WalOperation

/-- The call made by `apply_wal_entry`. -/
def raw : WalOperation → Write
  | set key value (some ttl) => .setWithTtl key (.str value) ttl
  | set key value none => .set key (.str value)
  | delete key => .delete key
  | incr key => .incr key
  | decr key => .decr key
  | incrBy key amount => .incrby key amount
  | append key value => .append key value
  | getSet key value => .getset key (.str value)
  | mset pairs => .mset pairs
  | pfAdd key values => .pfadd key values
  | pfMerge destination sources => .pfmerge destination sources
  | lPush key values => .lpush key values
  | rPush key values => .rpush key values
  | lPop key => .lpop key
  | rPop key => .rpop key
  | expire key ttl => .expire key ttl
  | persist key => .persist key
  | hSet key fields => .hset key fields
  | hDel key fields => .hdel key fields
  | hIncrBy key field amount => .hincrby key field amount

/-- The call made by `replay_wal`; `none` when the logged value does not decode. -/
def replayed (rt : Runtime) : WalOperation → Option Write
  | set key value (some ttl) => (rt.valueFromJson value).map fun parsed => .setWithTtl key parsed ttl
  | set key value none => (rt.valueFromJson value).map fun parsed => .set key parsed
  | getSet key value => (rt.valueFromJson value).map fun parsed => .getset key parsed
  | mset pairs => (decodePairs rt pairs).map fun parsed =>
      .mset (parsed.map fun p => (p.1, p.2.toString rt))
  | op => some op.raw

/-- Every text logged as a value decodes to the string value of that text. -/
def SelfDecoding (rt : Runtime) : WalOperation → Prop
  | set _ value _ => rt.valueFromJson value = some (.str value)
  | getSet _ value => rt.valueFromJson value = some (.str value)
  | mset pairs => ∀ p ∈ pairs, ∃ v, rt.valueFromJson p.2 = some v ∧ v.toString rt = p.2
  | _ => True

theorem decodePairs_of_selfDecoding {rt : Runtime} {pairs : List (String × String)}
    (h : ∀ p ∈ pairs, ∃ v, rt.valueFromJson p.2 = some v ∧ v.toString rt = p.2) :
    ∃ parsed, decodePairs rt pairs = some parsed ∧
      parsed.map (fun p => (p.1, p.2.toString rt)) = pairs := by
  induction pairs with
  | nil => exact ⟨[], rfl, rfl⟩
  | cons pair pairs ih =>
      obtain ⟨key, value⟩ := pair
      obtain ⟨v, hv, htext⟩ := h (key, value) (by simp)
      obtain ⟨parsed, hparsed, hmap⟩ := ih fun p hp => h p (List.mem_cons_of_mem _ hp)
      refine ⟨(key, v) :: parsed, ?_, ?_⟩
      · simp only [decodePairs, hv, hparsed]
      · simp only [List.map_cons, hmap, htext]

/-- Where texts decode to themselves, replay makes the call that recovery makes. -/
theorem replayed_of_selfDecoding {rt : Runtime} {op : WalOperation} (h : op.SelfDecoding rt) :
    op.replayed rt = some op.raw := by
  cases op with
  | set key value ttl =>
      cases ttl <;> simp only [replayed, show rt.valueFromJson value = _ from h] <;> rfl
  | getSet key value =>
      simp only [replayed, show rt.valueFromJson value = _ from h]
      rfl
  | mset pairs =>
      obtain ⟨parsed, hparsed, hmap⟩ := decodePairs_of_selfDecoding h
      simp only [replayed, hparsed, Option.map_some, hmap]
      rfl
  | _ => rfl

/-- Of an operation that is no HyperLogLog one, replay makes no HyperLogLog call. -/
theorem replayed_keyed {rt : Runtime} {op : WalOperation} {w : Write} (h : op.raw.Keyed)
    (hw : op.replayed rt = some w) : w.Keyed := by
  cases op with
  | set key value ttl =>
      cases ttl <;>
        (obtain ⟨parsed, -, rfl⟩ := Option.map_eq_some_iff.mp hw
         trivial)
  | getSet key value =>
      obtain ⟨parsed, -, rfl⟩ := Option.map_eq_some_iff.mp hw
      trivial
  | mset pairs =>
      obtain ⟨parsed, -, rfl⟩ := Option.map_eq_some_iff.mp hw
      trivial
  | _ =>
      cases hw
      exact h

end WalOperation

/-! ## The stores they leave -/

theorem applyOperation_snd (rt : Runtime) (now : Nat) (s : KvStore) (op : WalOperation) :
    (applyOperation rt now s op).2 = (s.write rt now op.raw).2 := by
  cases op with
  | set key value ttl => cases ttl <;> rfl
  | _ => rfl

/-- What a possible call leaves. -/
def KvStore.writeOpt (rt : Runtime) (now : Nat) (s : KvStore) (w : Option Write) : KvStore :=
  w.elim s fun w => (s.write rt now w).2

theorem replayOperation_snd (rt : Runtime) (now : Nat) (s : KvStore) (op : WalOperation) :
    (replayOperation rt now s op).2 = s.writeOpt rt now (op.replayed rt) := by
  cases op with
  | set key value ttl =>
      cases hparse : rt.valueFromJson value <;> cases ttl <;>
        simp only [replayOperation, WalOperation.replayed, hparse] <;> rfl
  | getSet key value =>
      cases hparse : rt.valueFromJson value <;>
        simp only [replayOperation, WalOperation.replayed, hparse] <;> rfl
  | mset pairs =>
      cases hparse : decodePairs rt pairs <;>
        simp only [replayOperation, WalOperation.replayed, hparse] <;> rfl
  | _ => rfl

@[simp] theorem writeOpt_config (rt : Runtime) (now : Nat) (s : KvStore) (w : Option Write) :
    (s.writeOpt rt now w).config = s.config := by
  cases w <;> simp [KvStore.writeOpt]

/-! ## When they stop -/

/-- Startup replay carries this operation out under these limits, or drops it without an error. -/
def WalOperation.Replayable (rt : Runtime) (cfg : StoreConfig) : WalOperation → Prop
  | .set key value _ => ∀ parsed, rt.valueFromJson value = some parsed → cfg.Valid key parsed
  | _ => True

theorem propagate_ok_iff {α : Type} (r : Except KvStoreError α × KvStore) :
    (propagate r).1 = .ok () ↔ ∃ a, r.1 = .ok a := by
  rcases r with ⟨e | a, s⟩
  · constructor
    · intro h; cases h
    · rintro ⟨a, ha⟩; cases ha
  · exact ⟨fun _ => ⟨a, rfl⟩, fun _ => rfl⟩

theorem setWithExpiry_ok_iff (s : KvStore) (now : Nat) (key : String) (value : Value)
    (expiresAt : Option Nat) :
    (∃ u, (s.setWithExpiry now key value expiresAt).1 = .ok u) ↔ s.config.Valid key value := by
  constructor
  · rintro ⟨u, hu⟩
    by_contra hvalid
    obtain ⟨e, he⟩ := KvStore.setWithExpiry_refused now expiresAt hvalid
    rw [he] at hu
    cases hu
  · intro hvalid
    cases htx : s.transactionQueue with
    | none => exact ⟨(), by rw [KvStore.setWithExpiry_put hvalid htx]⟩
    | some queue => exact ⟨(), by rw [KvStore.setWithExpiry_queued hvalid htx]⟩

/-- Replay stops exactly at a SET whose decoded value is outside the limits. -/
theorem replayOperation_ok_iff (rt : Runtime) (now : Nat) (s : KvStore) (op : WalOperation) :
    (replayOperation rt now s op).1 = .ok () ↔ op.Replayable rt s.config := by
  cases op with
  | set key value ttl =>
      simp only [replayOperation, WalOperation.Replayable]
      cases hparse : rt.valueFromJson value with
      | none => simp
      | some parsed =>
          cases ttl with
          | none =>
              simp only [propagate_ok_iff, Option.some.injEq, forall_eq']
              exact setWithExpiry_ok_iff s now key parsed none
          | some ttl =>
              simp only [propagate_ok_iff, Option.some.injEq, forall_eq']
              exact setWithExpiry_ok_iff s now key parsed (checkedAdd now ttl)
  | getSet key value =>
      cases hparse : rt.valueFromJson value <;>
        simp [replayOperation, WalOperation.Replayable, swallow, hparse]
  | mset pairs =>
      cases hparse : decodePairs rt pairs <;>
        simp [replayOperation, WalOperation.Replayable, swallow, hparse]
  | _ => simp [replayOperation, WalOperation.Replayable, swallow]

theorem replayWal_cons_of_replayable {rt : Runtime} {now : Nat} {entry : WalEntry}
    {entries : List (Nat × WalEntry)} {s : KvStore} (h : entry.operation.Replayable rt s.config) :
    replayWal rt ((now, entry) :: entries) s
      = replayWal rt entries (s.writeOpt rt now (entry.operation.replayed rt)) := by
  have hok := (replayOperation_ok_iff rt now s entry.operation).mpr h
  have hstore := replayOperation_snd rt now s entry.operation
  rw [replayWal]
  rcases hr : replayOperation rt now s entry.operation with ⟨_ | _, s'⟩
  · rw [hr] at hok; cases hok
  · rw [hr] at hstore
    rw [← hstore]

theorem replayWal_append (rt : Runtime) (l₁ l₂ : List (Nat × WalEntry)) :
    ∀ s : KvStore, replayWal rt (l₁ ++ l₂) s = (replayWal rt l₁ s).bind (replayWal rt l₂) := by
  induction l₁ with
  | nil => intro s; rfl
  | cons e l₁ ih =>
      intro s
      obtain ⟨now, entry⟩ := e
      rw [List.cons_append, replayWal, replayWal]
      rcases replayOperation rt now s entry.operation with ⟨_ | _, s'⟩
      · rfl
      · exact ih s'

theorem stamped_concat (clock : Nat → Nat) (wal : List WalEntry) (entry : WalEntry) :
    stamped clock (wal ++ [entry]) = stamped clock wal ++ [(clock wal.length, entry)] := by
  simp [stamped, List.mapIdx_append]

theorem mem_stamped {clock : Nat → Nat} {wal : List WalEntry} {e : Nat × WalEntry}
    (h : e ∈ stamped clock wal) : e.2 ∈ wal := by
  obtain ⟨i, hi, rfl⟩ := List.mem_mapIdx.mp h
  exact List.getElem_mem hi

theorem exists_mem_stamped {clock : Nat → Nat} {wal : List WalEntry} {entry : WalEntry}
    (h : entry ∈ wal) : ∃ now, (now, entry) ∈ stamped clock wal := by
  obtain ⟨i, hi, rfl⟩ := List.getElem_of_mem h
  exact ⟨clock i, List.mem_mapIdx.mpr ⟨i, hi, rfl⟩⟩

/-- A log replays to the end exactly when each of its entries does. -/
theorem replayWal_ok_iff (rt : Runtime) (entries : List (Nat × WalEntry)) :
    ∀ s : KvStore, (∃ s', replayWal rt entries s = .ok s') ↔
      ∀ e ∈ entries, e.2.operation.Replayable rt s.config := by
  induction entries with
  | nil => intro s; exact ⟨fun _ => by simp, fun _ => ⟨s, rfl⟩⟩
  | cons e entries ih =>
      intro s
      obtain ⟨now, entry⟩ := e
      by_cases h : entry.operation.Replayable rt s.config
      · rw [replayWal_cons_of_replayable h, ih, writeOpt_config]
        simp [h]
      · have hne : (replayOperation rt now s entry.operation).1 ≠ .ok () :=
          fun hok => h ((replayOperation_ok_iff rt now s entry.operation).mp hok)
        constructor
        · rintro ⟨s', hs'⟩
          rw [replayWal] at hs'
          rcases hr : replayOperation rt now s entry.operation with ⟨e | _, s''⟩
          · rw [hr] at hs'; cases hs'
          · exact absurd (by rw [hr]) hne
        · intro hall
          exact absurd (hall (now, entry) (by simp)) h

/-- The store that a log replays to: the calls of its entries, one after another. -/
theorem replayWal_eq {rt : Runtime} (entries : List (Nat × WalEntry)) :
    ∀ {s : KvStore}, (∀ e ∈ entries, e.2.operation.Replayable rt s.config) →
      replayWal rt entries s
        = .ok (entries.foldl (fun s e => s.writeOpt rt e.1 (e.2.operation.replayed rt)) s) := by
  induction entries with
  | nil => intro s _; rfl
  | cons e entries ih =>
      intro s h
      obtain ⟨now, entry⟩ := e
      rw [replayWal_cons_of_replayable (h (now, entry) (by simp)), List.foldl_cons]
      exact ih fun e he => by
        rw [writeOpt_config]
        exact h e (List.mem_cons_of_mem _ he)

namespace WalOperation

/-- `apply_wal_entry` returns an error on this store. -/
def Refused (s : KvStore) : WalOperation → Prop
  | set key value _ => ¬ s.config.Valid key (.str value)
  | getSet key value => ¬ s.config.Valid key (.str value)
  | incr key | decr key | incrBy key _ => ∀ i, s.values key ≠ some (.int i)
  | append key value =>
      (s.values key = none ∧ ¬ s.config.Valid key (.str value)) ∨
        ∃ v, s.values key = some v ∧ v.typeName ≠ "Str"
  | mset pairs => ∃ p ∈ pairs, ¬ s.config.Valid p.1 (.str p.2)
  | _ => False

end WalOperation

namespace KvStore

theorem addToInt_ok_iff (s : KvStore) (key : String) (amount : Int64) :
    (∃ i, (s.addToInt key amount).1 = .ok i) ↔ ∃ i, s.values key = some (.int i) := by
  unfold addToInt values contents
  cases s.store[key]? with
  | none => simp
  | some entry =>
      obtain ⟨value, expiresAt⟩ := entry
      cases value <;> simp

theorem append_ok_iff (s : KvStore) (now : Nat) (key value : String) :
    (∃ n, (s.append now key value).1 = .ok n) ↔
      ¬ ((s.values key = none ∧ ¬ s.config.Valid key (.str value)) ∨
        ∃ v, s.values key = some v ∧ v.typeName ≠ "Str") := by
  cases hkey : s.store[key]? with
  | none =>
      have hset : (∃ n, (s.append now key value).1 = .ok n)
          ↔ ∃ u, (s.setWithExpiry now key (.str value) none).1 = .ok u := by
        unfold append
        rw [hkey]
        simp only [set]
        rcases s.setWithExpiry now key (.str value) none with ⟨_ | _, s'⟩ <;> simp
      rw [hset, setWithExpiry_ok_iff]
      simp [values, contents, hkey]
  | some entry =>
      obtain ⟨old, expiresAt⟩ := entry
      unfold append values contents
      rw [hkey]
      cases old <;> simp [Value.typeName]

end KvStore

/-- Recovery and replicas stop exactly at a refused operation. -/
theorem applyOperation_ok_iff (rt : Runtime) (now : Nat) (s : KvStore) (op : WalOperation) :
    (applyOperation rt now s op).1 = .ok () ↔ ¬ op.Refused s := by
  cases op with
  | set key value ttl =>
      cases ttl with
      | none =>
          simp only [applyOperation, propagate_ok_iff, WalOperation.Refused, not_not]
          exact setWithExpiry_ok_iff s now key (.str value) none
      | some ttl =>
          simp only [applyOperation, propagate_ok_iff, WalOperation.Refused, not_not]
          exact setWithExpiry_ok_iff s now key (.str value) (checkedAdd now ttl)
  | getSet key value =>
      simp only [applyOperation, propagate_ok_iff, WalOperation.Refused, not_not]
      rw [← setWithExpiry_ok_iff s now key (.str value) none]
      unfold KvStore.getset KvStore.set
      rcases s.setWithExpiry now key (.str value) none with ⟨_ | _, s'⟩ <;> simp
  | incr key =>
      simp only [applyOperation, propagate_ok_iff, WalOperation.Refused, KvStore.incr,
        KvStore.addToInt_ok_iff, not_forall, not_not]
  | decr key =>
      simp only [applyOperation, propagate_ok_iff, WalOperation.Refused, KvStore.decr,
        KvStore.addToInt_ok_iff, not_forall, not_not]
  | incrBy key amount =>
      simp only [applyOperation, propagate_ok_iff, WalOperation.Refused, KvStore.incrby,
        KvStore.addToInt_ok_iff, not_forall, not_not]
  | append key value =>
      simp only [applyOperation, propagate_ok_iff, WalOperation.Refused, KvStore.append_ok_iff]
  | mset pairs =>
      simp only [applyOperation, propagate_ok_iff, WalOperation.Refused, KvStore.mset_ok_iff,
        not_exists, not_and, not_not]
  | _ => simp [applyOperation, WalOperation.Refused, swallow]

end Daikon
