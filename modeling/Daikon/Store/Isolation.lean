/-
# Daikon.Store.Isolation -- what an open transaction holds back

`set`, `set_with_ttl`, `delete`, `getset`, `mset` and an APPEND that would create its key are queued by
an open transaction. Every other mutating method acts at once, and DISCARD does not take that back. So
the map stays what it was exactly as long as those calls happen to change nothing (`isolated_iff`).

`LeavesAlone` is the condition for each method: for the queued ones it is empty, for the others it says, by
the entry that is there, when the call changes nothing. An entry changed back by a later call does not
count, as the statement is about every state of the run and not about its end.

DISCARD is part of the statement, but it adds no case. It forgets the queue and touches no entry, so
whatever acted at once while the transaction was open is in the map after it.
-/
import Daikon.Lib.Run
import Daikon.Store.Fields
import Daikon.Store.Memory
import Daikon.Store.Recency
import Daikon.Store.Text

namespace Daikon

open Lib.Run (Always Guarded)

/-! ## Cell operations without an effect -/

namespace CellOp

/-- The operation leaves the entry as it is. -/
def Idle (op : CellOp) (e : Option ValueWithTTL) : Prop := op.onEntry e = e

theorem nop_idle (e : Option ValueWithTTL) : nop.Idle e := onEntry_nop e

theorem edit_idle_none {f : Value → Value} {first : Option Value} :
    (edit f first).Idle none ↔ first = none := by
  cases first <;> simp [Idle, onEntry]

theorem edit_idle_some {f : Value → Value} {first : Option Value} {value : Value}
    {expiresAt : Option Nat} : (edit f first).Idle (some ⟨value, expiresAt⟩) ↔ f value = value := by
  cases first <;> simp [Idle, onEntry]

theorem retime_idle_iff {g : ValueWithTTL → Option Nat} {e : Option ValueWithTTL} :
    (retime g).Idle e ↔ ∀ entry, e = some entry → g entry = entry.expiresAt := by
  cases e with
  | none => simp [Idle, onEntry]
  | some entry =>
      obtain ⟨value, expiresAt⟩ := entry
      simp [Idle, onEntry]

section

variable {cfg : StoreConfig} {key : String} {e : Option ValueWithTTL}

theorem addInt_idle_iff {amount : Int64} : (addInt amount).Idle e ↔
    ∀ i, e.map ValueWithTTL.value = some (.int i) → amount = 0 := by
  cases e with
  | none => simp [addInt, edit_idle_none]
  | some entry =>
      obtain ⟨value, expiresAt⟩ := entry
      rw [addInt, edit_idle_some]
      cases value <;> simp

theorem appendStr_idle_iff {value : String} : (appendStr cfg true key value).Idle e ↔
    ∀ old, e.map ValueWithTTL.value = some (.str old) → value = "" := by
  cases e with
  | none => simp [appendStr, edit_idle_none]
  | some entry =>
      obtain ⟨old, expiresAt⟩ := entry
      rw [appendStr, edit_idle_some]
      cases old <;> simp

theorem pushList_idle_iff {push : List String → List String → List String} {values : List String} :
    (pushList cfg push key values).Idle e ↔ (cfg.ValidKey key →
      e ≠ none ∧ ∀ items, e.map ValueWithTTL.value = some (.list items) → push items values = items) := by
  unfold pushList
  split
  · next hvalid =>
      cases e with
      | none => simp [edit_idle_none, hvalid]
      | some entry =>
          obtain ⟨value, expiresAt⟩ := entry
          rw [edit_idle_some]
          cases value <;> simp [hvalid]
  · next hvalid => simp [nop_idle, hvalid]

/-- What is left of a list after a pop is not the whole list. -/
theorem popList_idle_iff {pop : List String → Option (String × List String)}
    (hpop : ∀ items, pop items = none ↔ items = [])
    (hrest : ∀ items val rest, pop items = some (val, rest) → rest ≠ items) :
    (popList pop).Idle e ↔
      ∀ items, e.map ValueWithTTL.value = some (.list items) → items = [] := by
  cases e with
  | none => simp [popList, edit_idle_none]
  | some entry =>
      obtain ⟨value, expiresAt⟩ := entry
      rw [popList, edit_idle_some]
      cases value with
      | list items =>
          cases hitems : pop items with
          | none =>
              obtain rfl := (hpop items).mp hitems
              simp [hitems]
          | some popped =>
              obtain ⟨val, rest⟩ := popped
              have hne : items ≠ [] := fun h => by simp [(hpop items).mpr h] at hitems
              simp [hitems, hrest items val rest hitems, hne]
      | _ => simp

theorem setFields_idle_iff {fields : Fields} : (setFields cfg key fields).Idle e ↔
    (cfg.ValidKey key → e ≠ none ∧ ∀ map, e.map ValueWithTTL.value = some (.hash map) →
      ∀ (f text : String), fields[f]? = some text → map[f]? = some text) := by
  unfold setFields
  split
  · next hvalid =>
      cases e with
      | none => simp [edit_idle_none, hvalid]
      | some entry =>
          obtain ⟨value, expiresAt⟩ := entry
          rw [edit_idle_some]
          cases value <;> simp [hvalid, KvStore.insertFields_eq_self]
  · next hvalid => simp [nop_idle, hvalid]

theorem deleteFields_idle_iff {fields : List String} : (deleteFields fields).Idle e ↔
    ∀ map, e.map ValueWithTTL.value = some (.hash map) → ∀ f ∈ fields, map[f]? = none := by
  cases e with
  | none => simp [deleteFields, edit_idle_none]
  | some entry =>
      obtain ⟨value, expiresAt⟩ := entry
      rw [deleteFields, edit_idle_some]
      cases value <;> simp [KvStore.removeFields_eq_self]

theorem addField_idle_iff {N : Type} {parse : String → Option N} {zero : N} {add : N → N → N}
    {show_ : N → String} {field : String} {amount : N} :
    (addField cfg parse zero add show_ key field amount).Idle e ↔
      (cfg.ValidKey key → e ≠ none ∧ ∀ map, e.map ValueWithTTL.value = some (.hash map) →
        map[field]? = some
          (show_ (add ((map[field]?.map fun v => (parse v).getD zero).getD zero) amount))) := by
  unfold addField
  split
  · next hvalid =>
      cases e with
      | none => simp [edit_idle_none, hvalid]
      | some entry =>
          obtain ⟨value, expiresAt⟩ := entry
          rw [edit_idle_some]
          cases value <;> simp [hvalid, KvStore.insert_eq_self]
  · next hvalid => simp [nop_idle, hvalid]

theorem addValues_idle_iff {rt : Runtime} {values : List String} :
    (addValues rt cfg key values).Idle e ↔ (cfg.ValidKey key → values ≠ [] →
      e ≠ none ∧ ∀ hll, e.map ValueWithTTL.value = some (.hyperLogLog hll) →
        HyperLogLog.addAll rt.hashValue values hll = hll) := by
  unfold addValues
  split
  · next hvalid =>
      cases values with
      | nil => simp [nop_idle]
      | cons value rest =>
          simp only [List.isEmpty_cons, Bool.false_eq_true, if_false]
          cases e with
          | none => simp [edit_idle_none, hvalid]
          | some entry =>
              obtain ⟨value, expiresAt⟩ := entry
              rw [edit_idle_some]
              cases value <;> simp [hvalid]
  · next hvalid => simp [nop_idle, hvalid]

end

end CellOp

namespace KvStore

theorem pushFront_eq_self {items values : List String} : pushFront items values = items ↔ values = [] := by
  have happend : ∀ (values items : List String), pushFront items values = values.reverse ++ items := by
    intro values
    induction values with
    | nil => intro items; rfl
    | cons value values ih =>
        intro items
        show pushFront (value :: items) values = _
        rw [ih]
        simp
  rw [happend, List.append_left_eq_self, List.reverse_eq_nil_iff]

theorem popFront_ne {items : List String} {val : String} {rest : List String}
    (h : popFront items = some (val, rest)) : rest ≠ items := by
  cases items with
  | nil => cases h
  | cons item items =>
      cases h
      exact fun heq => List.cons_ne_self _ _ heq.symm

theorem popBack_ne {items : List String} {val : String} {rest : List String}
    (h : popBack items = some (val, rest)) : rest ≠ items := by
  obtain ⟨last, hlast, heq⟩ := Option.map_eq_some_iff.mp h
  cases heq
  intro hsame
  have hlength := congrArg List.length hsame
  rw [List.length_dropLast] at hlength
  have hpos : 0 < items.length := List.length_pos_iff.mpr fun hnil => by simp [hnil] at hlast
  omega

end KvStore

/-! ## Calls while a transaction is open -/

/-- The call, made while a transaction is open, finds nothing that it would change. -/
def Write.LeavesAlone (rt : Runtime) (s : KvStore) (now : Nat) : Write → Prop
  -- queued, or refused
  | set _ _ | setWithTtl _ _ _ | delete _ | getset _ _ | mset _ => True
  | incr key | decr key => ∀ i, s.values key ≠ some (.int i)
  | incrby key amount => ∀ i, s.values key = some (.int i) → amount = 0
  | append key value => ∀ old, s.values key = some (.str old) → value = ""
  | expire key ttl => ∀ entry, s.contents key = some entry → entry.expired now = false →
      checkedAdd now ttl = entry.expiresAt
  | persist key => ∀ entry, s.contents key = some entry → entry.expiresAt = none
  | pfadd key values => s.config.ValidKey key → values ≠ [] → s.contents key ≠ none ∧
      ∀ hll, s.values key = some (.hyperLogLog hll) → HyperLogLog.addAll rt.hashValue values hll = hll
  | pfmerge destination sources => ∀ merged, s.config.ValidKey destination → sources ≠ [] →
      s.mergedSketch destination sources = .ok merged →
        s.contents destination = some ⟨.hyperLogLog merged, none⟩
  | lpush key values | rpush key values => s.config.ValidKey key → s.contents key ≠ none ∧
      ∀ items, s.values key = some (.list items) → values = []
  | lpop key | rpop key => ∀ items, s.values key = some (.list items) → items = []
  | hset key fields => s.config.ValidKey key → s.contents key ≠ none ∧
      ∀ map, s.values key = some (.hash map) →
        ∀ (f text : String), fields[f]? = some text → map[f]? = some text
  | hdel key fields => ∀ map, s.values key = some (.hash map) → ∀ f ∈ fields, map[f]? = none
  | hincrby key field amount => s.config.ValidKey key → s.contents key ≠ none ∧
      ∀ map, s.values key = some (.hash map) → map[field]? = some
        (toString ((map[field]?.map fun v => (parseI64 v).getD 0).getD 0 + amount))
  | hincrbyfloat key field amount => s.config.ValidKey key → s.contents key ≠ none ∧
      ∀ map, s.values key = some (.hash map) → map[field]? = some
        (rt.f64ToString ((map[field]?.map fun v => (rt.f64Parse v).getD 0.0).getD 0.0 + amount))

/-- The call acts at once whether a transaction is open or not. -/
def Write.AtOnce : Write → Prop
  | set _ _ | setWithTtl _ _ _ | delete _ | append _ _ | getset _ _ | mset _ => False
  | _ => True

namespace KvStore

/-- The same of any method. -/
def LeavesAlone (rt : Runtime) (s : KvStore) (c : Nat × Method) : Prop :=
  match c.2 with
  | .write w => w.LeavesAlone rt s c.1
  | .pfreserve key _ => s.config.ValidKey key → s.contents key ≠ none
  | .cleanupExpired => ∀ key entry, s.contents key = some entry → entry.due c.1 = false
  | _ => True

theorem Moves.contents_iff {s s' : KvStore} {key : String} {op : CellOp}
    (h : Moves s s' [(key, op)]) : s'.contents = s.contents ↔ op.Idle (s.contents key) := by
  have hcontents : s'.contents = Function.update s.contents key (op.onEntry (s.contents key)) :=
    h.contents
  rw [hcontents, Function.update_eq_self_iff]
  rfl

section

variable {s : KvStore}

theorem append_contents_iff (htx : s.inTransaction = true) (now : Nat) (key value : String) :
    (s.append now key value).2.contents = s.contents ↔
      ∀ old, s.values key = some (.str old) → value = "" := by
  cases hkey : s.store[key]? with
  | none =>
      have hcell : s.values key = none := by
        unfold values contents
        rw [hkey]
        rfl
      rw [append_absent s key now value hkey, hcell]
      exact iff_of_true (setWithExpiry_deferred htx now key _ none).contents (by simp)
  | some entry =>
      have hmoves := append_present s key now value hkey
      rw [htx] at hmoves
      exact hmoves.contents_iff.trans CellOp.appendStr_idle_iff

theorem pfmerge_contents_iff (destination : String) (sources : List String) :
    (s.pfmerge destination sources).2.contents = s.contents ↔
      ∀ merged, s.config.ValidKey destination → sources ≠ [] →
        s.mergedSketch destination sources = .ok merged →
          s.contents destination = some ⟨.hyperLogLog merged, none⟩ := by
  constructor
  · intro h merged hvalid hsources hmerged
    rw [pfmerge_contents hvalid hsources hmerged, Function.update_eq_self_iff] at h
    exact h.symm
  · intro h
    rcases pfmerge_cases s destination sources with ⟨e, he⟩ | ⟨merged, hvalid, hsources, hmerged, -⟩
    · rw [he]
    · rw [pfmerge_contents hvalid hsources hmerged, Function.update_eq_self_iff]
      exact (h merged hvalid hsources hmerged).symm

theorem pfreserve_contents_iff (key : String) (precision : Nat) :
    (s.pfreserve key precision).2.contents = s.contents ↔
      (s.config.ValidKey key → s.contents key ≠ none) := by
  constructor
  · intro h hvalid hnone
    have hkey := congrFun h key
    rw [pfreserve_put precision hvalid hnone] at hkey
    have hput : (s.insertEntry key ⟨.hyperLogLog (HyperLogLog.new precision), none⟩
        (estimateValueSize (.hyperLogLog (HyperLogLog.new precision)))).contents key
        = some ⟨.hyperLogLog (HyperLogLog.new precision), none⟩ :=
      (contents_insert s key _ key).trans (Function.update_self ..)
    exact absurd (hput.symm.trans (hkey.trans hnone)) (by simp)
  · intro h
    rcases pfreserve_cases s key precision with ⟨e, he⟩ | ⟨hvalid, hnone, -⟩
    · rw [he]
    · exact absurd hnone (h hvalid)

theorem cleanupExpired_contents_iff (now : Nat) : (s.cleanupExpired now).2.contents = s.contents ↔
    ∀ key entry, s.contents key = some entry → entry.due now = false := by
  rw [cleanupExpired_contents]
  constructor
  · intro h key entry hentry
    by_contra hdue
    have hkey : (if key ∈ s.dueKeys now then none else s.contents key) = s.contents key :=
      congrFun h key
    rw [if_pos (mem_dueKeys_iff.mpr ⟨entry, hentry, by simpa using hdue⟩), hentry] at hkey
    cases hkey
  · intro h
    funext k
    split
    · next hin =>
        obtain ⟨entry, hentry, hdue⟩ := mem_dueKeys_iff.mp hin
        rw [h k entry hentry] at hdue
        cases hdue
    · rfl

/-- A call that no transaction holds back leaves the map alone if and only if it finds nothing to
change. -/
theorem atOnce_contents_iff (rt : Runtime) (s : KvStore) (now : Nat) {w : Write} (hw : w.AtOnce) :
    (s.write rt now w).2.contents = s.contents ↔ w.LeavesAlone rt s now := by
  cases w with
  | set _ _ | setWithTtl _ _ _ | delete _ | append _ _ | getset _ _ | mset _ => exact hw.elim
  | incr key =>
      refine (addToInt_moves s key 1).contents_iff.trans (CellOp.addInt_idle_iff.trans ?_)
      exact forall_congr' fun i => by simp [values]
  | decr key =>
      refine (addToInt_moves s key (-1)).contents_iff.trans (CellOp.addInt_idle_iff.trans ?_)
      exact forall_congr' fun i => by simp [values]
  | incrby key amount =>
      exact (addToInt_moves s key amount).contents_iff.trans CellOp.addInt_idle_iff
  | expire key ttl =>
      refine (expire_moves s key now ttl).contents_iff.trans (CellOp.retime_idle_iff.trans ?_)
      refine forall_congr' fun entry => imp_congr_right fun _ => ?_
      cases entry.expired now <;> simp
  | persist key =>
      refine (persist_moves s key now).contents_iff.trans (CellOp.retime_idle_iff.trans ?_)
      exact forall_congr' fun entry => imp_congr_right fun _ => eq_comm
  | pfadd key values =>
      exact (pfadd_moves rt s key values).contents_iff.trans CellOp.addValues_idle_iff
  | pfmerge destination sources => exact pfmerge_contents_iff destination sources
  | lpush key values =>
      refine (pushWith_moves s key pushFront values).contents_iff.trans
        (CellOp.pushList_idle_iff.trans ?_)
      simp only [pushFront_eq_self]
      rfl
  | rpush key values =>
      refine (pushWith_moves s key (· ++ ·) values).contents_iff.trans
        (CellOp.pushList_idle_iff.trans ?_)
      simp only [List.append_right_eq_self]
      rfl
  | lpop key =>
      exact (popWith_moves s key popFront).contents_iff.trans
        (CellOp.popList_idle_iff popFront_eq_none fun _ _ _ => popFront_ne)
  | rpop key =>
      exact (popWith_moves s key popBack).contents_iff.trans
        (CellOp.popList_idle_iff popBack_eq_none fun _ _ _ => popBack_ne)
  | hset key fields => exact (hset_moves s key fields).contents_iff.trans CellOp.setFields_idle_iff
  | hdel key fields => exact (hdel_moves s key fields).contents_iff.trans CellOp.deleteFields_idle_iff
  | hincrby key field amount =>
      exact (addToField_moves s key parseI64 0 (· + ·) toString field amount).contents_iff.trans
        CellOp.addField_idle_iff
  | hincrbyfloat key field amount =>
      exact (addToField_moves s key rt.f64Parse 0.0 (· + ·) rt.f64ToString field amount).contents_iff.trans
        CellOp.addField_idle_iff

/-- In an open transaction, a call leaves the map alone if and only if it finds nothing to change. -/
theorem write_contents_iff (rt : Runtime) (htx : s.inTransaction = true) (now : Nat) (w : Write) :
    (s.write rt now w).2.contents = s.contents ↔ w.LeavesAlone rt s now := by
  cases w with
  | set key value => exact iff_of_true (setWithExpiry_deferred htx now key value none).contents trivial
  | setWithTtl key value ttl =>
      exact iff_of_true (setWithExpiry_deferred htx now key value _).contents trivial
  | delete key => exact iff_of_true (delete_deferred htx now key).contents trivial
  | getset key value =>
      rw [show (s.write rt now (.getset key value)).2 = _ from getset_snd s key now value]
      exact iff_of_true (setWithExpiry_deferred htx now key value none).contents trivial
  | mset pairs => exact iff_of_true (mset_deferred now pairs htx).contents trivial
  | append key value => exact append_contents_iff htx now key value
  | _ => exact atOnce_contents_iff rt s now trivial

end

end KvStore

/-- The method neither carries the queue out nor drops it. -/
def Method.KeepsOpen : Method → Prop
  | exec | discard => False
  | _ => True

namespace KvStore

theorem call_contents_iff (rt : Runtime) {s : KvStore} (htx : s.inTransaction = true)
    (c : Nat × Method) (hc : c.2.KeepsOpen) :
    (s.call rt c).contents = s.contents ↔ s.LeavesAlone rt c := by
  obtain ⟨now, m⟩ := c
  have hqueue : ∀ m : Method, m.Queues → ((s.call rt (now, m)).contents = s.contents ↔ True) := by
    intro m hm
    obtain ⟨queue, hcall⟩ := call_queues rt s now hm
    rw [hcall]
    exact iff_of_true rfl trivial
  cases m with
  | write w => exact write_contents_iff rt htx now w
  | pfreserve key precision => exact pfreserve_contents_iff key precision
  | cleanupExpired => exact cleanupExpired_contents_iff now
  | exec | discard => exact hc.elim
  | multi | queueOperation op => exact hqueue _ trivial
  | drainKeyspaceEvents | resetStats | setConfig config | setKeyspaceNotificationsEnabled enabled =>
      exact iff_of_true rfl trivial

theorem call_inTransaction (rt : Runtime) {s : KvStore} (htx : s.inTransaction = true)
    (c : Nat × Method) (hc : c.2.KeepsOpen) : (s.call rt c).inTransaction = true := by
  obtain ⟨now, m⟩ := c
  cases m with
  | write w => exact (write_inTransaction rt s now w).trans htx
  | pfreserve key precision =>
      show (s.pfreserve key precision).2.inTransaction = true
      rcases pfreserve_cases s key precision with ⟨e, he⟩ | ⟨-, -, heq⟩
      · rw [he]
        exact htx
      · rw [heq]
        exact htx
  | cleanupExpired => exact (removeAll_inTransaction now (s.dueKeys now) s).trans htx
  | exec | discard => exact hc.elim
  | multi =>
      show s.multi.2.inTransaction = true
      unfold multi
      split
      · exact htx
      · rfl
  | queueOperation op =>
      show (s.queueOperation op).2.inTransaction = true
      unfold queueOperation
      split
      · rfl
      · exact htx
  | drainKeyspaceEvents | resetStats | setConfig config | setKeyspaceNotificationsEnabled enabled =>
      exact htx

theorem discard_contents (s : KvStore) : s.discard.2.contents = s.contents := by
  unfold discard
  split <;> rfl

theorem multi_contents (s : KvStore) : s.multi.2.contents = s.contents := by
  unfold multi
  split <;> rfl

/-- The map is that of `s`, and a DISCARD leaves it so. -/
def Isolated (s t : KvStore) : Prop := t.contents = s.contents ∧ t.discard.2.contents = s.contents

/-- The transaction is open and the map is that of `s`. -/
structure Waiting (s t : KvStore) : Prop where
  inTransaction : t.inTransaction = true
  contents : t.contents = s.contents

/-- From the state after MULTI on, over every run of calls that leaves the transaction open: the map
stays what it was, and a DISCARD leaves it so, if and only if every call finds nothing to change. -/
theorem isolated_iff (rt : Runtime) (s : KvStore) (cs : List (Nat × Method))
    (hclosed : s.inTransaction = false) (hcs : ∀ c ∈ cs, c.2.KeepsOpen) :
    Always (call rt) (Isolated s) s.multi.2 cs ↔ Guarded (call rt) (LeavesAlone rt) s.multi.2 cs := by
  have hopen : s.multi.2.inTransaction = true := by
    unfold multi
    rw [if_neg (by simpa [inTransaction] using hclosed)]
    rfl
  have hrun : Guarded (call rt) (fun _ c => True ∧ c.2.KeepsOpen) s.multi.2 cs :=
    Lib.Run.guarded_true.and_forall hcs
  have hstep : ∀ t c, Waiting s t → True ∧ c.2.KeepsOpen → t.LeavesAlone rt c →
      Waiting s (t.call rt c) := fun t c h hc halone =>
    ⟨call_inTransaction rt h.inTransaction c hc.2,
      ((call_contents_iff rt h.inTransaction c hc.2).mpr halone).trans h.contents⟩
  have hisolated : ∀ t, Waiting s t → Isolated s t := fun t h =>
    ⟨h.contents, (discard_contents t).trans h.contents⟩
  have hbad : ∀ t c, Waiting s t → True ∧ c.2.KeepsOpen → ¬ t.LeavesAlone rt c →
      ¬ Isolated s (t.call rt c) := fun t c h hc halone hafter =>
    halone ((call_contents_iff rt h.inTransaction c hc.2).mp (hafter.1.trans h.contents.symm))
  exact Lib.Run.always_iff_guarded hstep hisolated hbad ⟨hopen, multi_contents s⟩ hrun

/-- The counter `k` stands at one. -/
def counting : KvStore := calls .strings new [(0, .write (.set "k" (.int 1)))]

/-- Calls that are queued, or refused, or find nothing to change: the last two want a list and a hash. -/
def quietCalls : List (Nat × Method) :=
  [(0, .write (.set "k" (.str "a"))), (1, .write (.delete "k")), (2, .write (.append "new" "x")),
    (3, .write (.mset [("p", "1"), ("k", "2")])), (4, .write (.incr "missing")),
    (5, .write (.lpop "k")), (6, .write (.hdel "k" ["f"]))]

theorem isolated_iff_quiet : Always (call .strings) (Isolated counting) counting.multi.2 quietCalls := by
  have hopen : ∀ c ∈ quietCalls, c.2.KeepsOpen := by simp [quietCalls, Method.KeepsOpen]
  refine (isolated_iff .strings counting quietCalls (by decide +kernel) hopen).mpr ?_
  refine ⟨trivial, trivial, fun old hold => ?_, trivial, fun i hi => ?_, fun items hitems => ?_,
    fun map hmap => ?_, trivial⟩
  · cases hold
  · cases hi
  · cases hitems
  · cases hmap

/-- INCR counts at once, and DISCARD leaves it counted. -/
theorem incr_not_isolated : counting.inTransaction = false ∧
    ¬ Always (call .strings) (Isolated counting) counting.multi.2 [(0, .write (.incr "k"))] := by
  refine ⟨by decide +kernel, fun h => ?_⟩
  have hcounted : (calls .strings counting.multi.2 [(0, .write (.incr "k"))]).discard.2.contents "k"
      = some ⟨.int 2, none⟩ := by decide +kernel
  have hbefore : counting.contents "k" = some ⟨.int 1, none⟩ := by decide +kernel
  have hsame := congrFun h.last.2 "k"
  exact absurd (hcounted.symm.trans (hsame.trans hbefore)) (by decide)

end KvStore

end Daikon
