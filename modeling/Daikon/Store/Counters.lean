/-
# Daikon.Store.Counters -- counter arithmetic at the ends of the range

`incr`, `decr`, `incrby`, `hincrby` and the queued counters of EXEC add 64-bit numbers without a check. Each
is exact, or refuses with the entries unchanged, if and only if the exact sum is a 64-bit number
(`counter_exact_iff`). Beyond that the release build wraps around, and a build with overflow checks stops. A
hash field is a text, so it may hold an integer that is too large before anything is added.

The exact sum is an integer of Lean, and the stored one an `Int64` whose addition wraps, so that the two can
be compared. What is asked of an operation is asked of each addition that it makes (`Meets`): EXEC makes one
for every queued counter, each on what the ones before it have left.

That a field holds a text, and not a number, makes for one more case. A text that denotes no integer is read
as zero, and there is no exact sum to compare with. But a text may denote an integer beyond 64 bits
(`textInt`); it is read as zero as well, and the sum from zero is not the sum of what the field says.
-/
import Daikon.Lib.Lookup
import Daikon.Lib.Run
import Daikon.Store.Decimal
import Daikon.Store.Fields
import Daikon.Store.Refine

namespace Daikon

open Lib.Run (Guarded guarded_congr)

/-! ## One addition -/

/-- An addition as its caller sees it. -/
structure Addition where
  amount : Int64
  /-- The integer that is added to, if there is one. -/
  held : Option Int
  /-- The number that is returned; none for an error. -/
  answer : Option Int
  /-- The integer that is there afterwards, if there is one. -/
  stored : Option Int
  before : KvStore
  after : KvStore

namespace Addition

/-- The exact sum is returned and stored, or there is an error and no entry changes. -/
def ExactOrRefused (a : Addition) : Prop :=
  match a.answer with
  | none => a.after.store = a.before.store
  | some r => ∀ v, a.held = some v → r = v + a.amount.toInt ∧ a.stored = some r

/-- The integer and the exact sum are 64-bit numbers. -/
def InRange (a : Addition) : Prop :=
  ∀ v, a.held = some v → FitsI64 v ∧ FitsI64 (v + a.amount.toInt)

theorem toInt_add_eq_iff (v amount : Int64) :
    (v + amount).toInt = v.toInt + amount.toInt ↔ FitsI64 (v.toInt + amount.toInt) := by
  constructor
  · intro h
    rw [← h]
    exact fitsI64_toInt _
  · intro h
    rw [Int64.toInt_add]
    exact Int.bmod_eq_of_le (by have := h.1; omega) (by have := h.2; omega)

theorem exact_of_refused {a : Addition} (hanswer : a.answer = none)
    (hafter : a.after.store = a.before.store) (hheld : a.held = none) :
    a.ExactOrRefused ↔ a.InRange := by
  unfold ExactOrRefused InRange
  rw [hanswer, hheld]
  exact iff_of_true hafter fun v h => by cases h

/-- The wrapped sum of a 64-bit number and the amount, returned and stored, is exact in range only. -/
theorem exact_of_wrapped {a : Addition} {v : Int64} (hheld : a.held = some v.toInt)
    (hanswer : a.answer = some (v + a.amount).toInt)
    (hstored : a.stored = some (v + a.amount).toInt) : a.ExactOrRefused ↔ a.InRange := by
  unfold ExactOrRefused InRange
  rw [hanswer, hstored, hheld]
  simp only [Option.some.injEq, forall_eq', and_true, toInt_add_eq_iff, fitsI64_toInt, true_and]

end Addition

/-! ## The additions of the store -/

namespace KvStore

/-- The integer that a key holds. -/
def counter (s : KvStore) (key : String) : Option Int :=
  match s.store[key]? with
  | some ⟨.int v, _⟩ => some v.toInt
  | _ => none

/-- The integer that a queued counter adds to; a missing key counts from zero. -/
def queuedCounter (s : KvStore) (key : String) : Option Int :=
  match s.store[key]? with
  | some ⟨.int v, _⟩ => some v.toInt
  | some _ => none
  | none => some 0

/-- The integer that a hash field holds; a missing key or field counts from zero. -/
def fieldCounter (s : KvStore) (key field : String) : Option Int :=
  match s.store[key]? with
  | some ⟨.hash map, _⟩ =>
      match map[field]? with
      | some text => textInt text
      | none => some 0
  | some _ => none
  | none => some 0

/-- The addition of a call on a key that answers `r`. -/
def keyAddition (s : KvStore) (key : String) (amount : Int64)
    (r : Except KvStoreError Int64 × KvStore) : Addition where
  amount := amount
  held := s.counter key
  answer := r.1.toOption.map Int64.toInt
  stored := r.2.counter key
  before := s
  after := r.2

/-- A refused key has nothing added to it. -/
def fieldAddition (s : KvStore) (key field : String) (amount : Int64)
    (r : Except KvStoreError Int64 × KvStore) : Addition where
  amount := amount
  held := if s.config.ValidKey key then s.fieldCounter key field else none
  answer := r.1.toOption.map Int64.toInt
  stored := r.2.fieldCounter key field
  before := s
  after := r.2

/-- A queued operation answers with a line, which is a number or an error. -/
def queuedAddition (s : KvStore) (key : String) (amount : Int64) (r : String × KvStore) : Addition where
  amount := amount
  held := s.queuedCounter key
  answer := textInt r.1
  stored := r.2.counter key
  before := s
  after := r.2

theorem counter_insert (s : KvStore) (key : String) (v : Int64) (expiresAt : Option Nat) :
    (s.rewriteEntry key ⟨.int v, expiresAt⟩).counter key = some v.toInt := by
  unfold counter
  rw [show (s.rewriteEntry key ⟨.int v, expiresAt⟩).store = s.store.insert key ⟨.int v, expiresAt⟩
    from rfl, Std.ExtTreeMap.getElem?_insert_self]

theorem addToInt_exact_iff (s : KvStore) (key : String) (amount : Int64) :
    (s.keyAddition key amount (s.addToInt key amount)).ExactOrRefused ↔
      (s.keyAddition key amount (s.addToInt key amount)).InRange := by
  have hheld : s.counter key = match s.store[key]? with
    | some ⟨.int v, _⟩ => some v.toInt
    | _ => none := rfl
  unfold addToInt
  cases hkey : s.store[key]? with
  | none =>
      rw [hkey] at hheld
      exact Addition.exact_of_refused rfl rfl hheld
  | some entry =>
      rw [hkey] at hheld
      obtain ⟨value, expiresAt⟩ := entry
      cases value with
      | int v => exact Addition.exact_of_wrapped hheld rfl (counter_insert s key _ _)
      | _ => exact Addition.exact_of_refused rfl rfl hheld

theorem fieldCounter_insert {s s' : KvStore} {key field : String} {map : Fields} (v : Int64)
    {expiresAt : Option Nat}
    (h : s'.store = s.store.insert key ⟨.hash (map.insert field (toString v)), expiresAt⟩) :
    s'.fieldCounter key field = some v.toInt := by
  unfold fieldCounter
  rw [h, Std.ExtTreeMap.getElem?_insert_self]
  simp only [Std.ExtTreeMap.getElem?_insert_self]
  exact textInt_toString v.toInt

/-- The number that the code reads from a field is the integer there, if that is a 64-bit number. -/
theorem exact_of_parsed {a : Addition} {text : String} (hheld : a.held = textInt text)
    (hanswer : a.answer = some ((parseI64 text).getD 0 + a.amount).toInt)
    (hstored : a.stored = some ((parseI64 text).getD 0 + a.amount).toInt) :
    a.ExactOrRefused ↔ a.InRange := by
  cases htext : textInt text with
  | none =>
      rw [htext] at hheld
      unfold Addition.ExactOrRefused Addition.InRange
      rw [hanswer, hheld]
      exact iff_of_true (fun v h => by cases h) fun v h => by cases h
  | some i =>
      rw [htext] at hheld
      rw [parseI64_eq, htext, Option.bind_some] at hanswer hstored
      by_cases hfits : FitsI64 i
      · rw [if_pos hfits, Option.getD_some] at hanswer hstored
        rw [← toInt_ofInt_of_fits hfits] at hheld
        exact Addition.exact_of_wrapped hheld hanswer hstored
      · -- the field counts as zero, and the amount is not the sum
        rw [if_neg hfits, Option.getD_none, Int64.zero_add] at hanswer
        unfold Addition.ExactOrRefused Addition.InRange
        rw [hanswer, hheld]
        refine iff_of_false (fun h => ?_) fun h => hfits (h i rfl).1
        have hsum := (h i rfl).1
        have hzero : i = 0 := by omega
        exact hfits (by rw [hzero]; decide)

section

variable {s : KvStore} {key : String} (field : String) (amount : Int64)

theorem hincrby_missing (hvalid : s.config.ValidKey key) (hkey : s.store[key]? = none) :
    s.hincrby key field amount = (.ok amount, s.insertEntry key
      ⟨.hash ((∅ : Fields).insert field (toString amount)), none⟩
      (estimateValueSize (.hash ((∅ : Fields).insert field (toString amount))))) := by
  unfold hincrby addToField
  rw [validateKey_eq s key hvalid, hkey]

theorem hincrby_hash (hvalid : s.config.ValidKey key) {map : Fields} {expiresAt : Option Nat}
    (hkey : s.store[key]? = some ⟨.hash map, expiresAt⟩) {text : Option String}
    (hfield : map[field]? = text) :
    s.hincrby key field amount = (.ok ((text.map fun v => (parseI64 v).getD 0).getD 0 + amount),
      s.rewriteEntry key ⟨.hash (map.insert field
        (toString ((text.map fun v => (parseI64 v).getD 0).getD 0 + amount))), expiresAt⟩) := by
  unfold hincrby addToField
  rw [validateKey_eq s key hvalid, hkey]
  simp only [hfield]

/-- The addition on a field of a stored hash. -/
theorem hincrby_hash_exact_iff (hvalid : s.config.ValidKey key) {map : Fields}
    {expiresAt : Option Nat} (hkey : s.store[key]? = some ⟨.hash map, expiresAt⟩) :
    (s.fieldAddition key field amount (s.hincrby key field amount)).ExactOrRefused ↔
      (s.fieldAddition key field amount (s.hincrby key field amount)).InRange := by
  cases hfield : map[field]? with
  | none =>
      -- a missing field counts as zero
      have hheld : s.fieldCounter key field = some 0 := by
        unfold fieldCounter
        rw [hkey]
        simp only [hfield]
      rw [hincrby_hash field amount hvalid hkey hfield]
      exact Addition.exact_of_wrapped (v := 0) ((if_pos hvalid).trans hheld) rfl
        (fieldCounter_insert _ rfl)
  | some text =>
      have hheld : s.fieldCounter key field = textInt text := by
        unfold fieldCounter
        rw [hkey]
        simp only [hfield]
      rw [hincrby_hash field amount hvalid hkey hfield]
      exact exact_of_parsed ((if_pos hvalid).trans hheld) rfl (fieldCounter_insert _ rfl)

theorem hincrby_exact_iff :
    (s.fieldAddition key field amount (s.hincrby key field amount)).ExactOrRefused ↔
      (s.fieldAddition key field amount (s.hincrby key field amount)).InRange := by
  by_cases hvalid : s.config.ValidKey key
  · cases hkey : s.store[key]? with
    | none =>
        have hheld : s.fieldCounter key field = some 0 := by
          unfold fieldCounter
          rw [hkey]
        have hzero : amount = 0 + amount := (Int64.zero_add amount).symm
        rw [hincrby_missing field amount hvalid hkey]
        exact Addition.exact_of_wrapped (v := 0) ((if_pos hvalid).trans hheld)
          (congrArg (fun i : Int64 => some i.toInt) hzero)
          ((fieldCounter_insert amount rfl).trans (congrArg (fun i : Int64 => some i.toInt) hzero))
    | some entry =>
        obtain ⟨value, expiresAt⟩ := entry
        cases value with
        | hash map => exact hincrby_hash_exact_iff field amount hvalid hkey
        | _ =>
            have hheld : s.fieldCounter key field = none := by
              unfold fieldCounter
              rw [hkey]
            unfold hincrby addToField
            rw [validateKey_eq s key hvalid, hkey]
            exact Addition.exact_of_refused rfl rfl ((if_pos hvalid).trans hheld)
  · obtain ⟨e, he⟩ := validateKey_refused s key hvalid
    have hsame : s.hincrby key field amount = (.error e, s) := by
      unfold hincrby addToField
      rw [he]
    rw [hsame]
    exact Addition.exact_of_refused rfl rfl (if_neg hvalid)

end

/-! ## The queue of a transaction -/

theorem textInt_mismatch : textInt "ERR: Type mismatch" = none := by decide

theorem execAdd_mismatch {s : KvStore} {key : String} {entry : ValueWithTTL} (amount : Int64)
    (hkey : s.store[key]? = some entry) (hentry : ∀ v, entry.value ≠ .int v) :
    s.execAdd key amount = ("ERR: Type mismatch", s.rewriteEntry key entry) := by
  unfold execAdd
  rw [hkey]
  obtain ⟨value, expiresAt⟩ := entry
  cases value with
  | int v => exact absurd rfl (hentry v)
  | _ => rfl

theorem execAdd_exact_iff (s : KvStore) (key : String) (amount : Int64) :
    (s.queuedAddition key amount (s.execAdd key amount)).ExactOrRefused ↔
      (s.queuedAddition key amount (s.execAdd key amount)).InRange := by
  have hheld : s.queuedCounter key = match s.store[key]? with
    | some ⟨.int v, _⟩ => some v.toInt
    | some _ => none
    | none => some 0 := rfl
  cases hkey : s.store[key]? with
  | none =>
      rw [hkey] at hheld
      have hzero : amount = 0 + amount := (Int64.zero_add amount).symm
      unfold execAdd
      rw [hkey]
      exact Addition.exact_of_wrapped (v := 0) hheld
        ((textInt_toString amount.toInt).trans (congrArg (fun i : Int64 => some i.toInt) hzero))
        ((counter_insert s key _ _).trans (congrArg (fun i : Int64 => some i.toInt) hzero))
  | some entry =>
      rw [hkey] at hheld
      obtain ⟨value, expiresAt⟩ := entry
      cases value with
      | int v =>
          unfold execAdd
          rw [hkey]
          exact Addition.exact_of_wrapped hheld (textInt_toString (v + amount).toInt)
            (counter_insert s key _ _)
      | _ =>
          rw [execAdd_mismatch amount hkey fun v h => by cases h]
          -- the entry is put back
          refine Addition.exact_of_refused ?_ (Lib.Lookup.insert_same s.store hkey) hheld
          simp only [queuedAddition, textInt_mismatch]

end KvStore

namespace TransactionOp

/-- The key and the amount of a queued counter. -/
def counter : TransactionOp → Option (String × Int64)
  | incr key => some (key, 1)
  | decr key => some (key, -1)
  | incrBy key amount => some (key, amount)
  | set _ _ _ | delete _ | append _ _ => none

theorem execOp_counter {s : KvStore} {op : TransactionOp} {key : String} {amount : Int64}
    (h : op.counter = some (key, amount)) : s.execOp op = s.execAdd key amount := by
  cases op <;> cases h <;> rfl

end TransactionOp

/-! ## Every counter operation -/

/-- The operations on counters. EXEC carries out the queued ones, each at its turn. -/
inductive CounterOp where
  | incr (key : String)
  | decr (key : String)
  | incrby (key : String) (amount : Int64)
  | hincrby (key field : String) (amount : Int64)
  | exec

namespace CounterOp

/-- What is asked of every addition that the operation makes. -/
def Meets (P : Addition → Prop) (s : KvStore) : CounterOp → Prop
  | incr key => P (s.keyAddition key 1 (s.incr key))
  | decr key => P (s.keyAddition key (-1) (s.decr key))
  | incrby key amount => P (s.keyAddition key amount (s.incrby key amount))
  | hincrby key field amount => P (s.fieldAddition key field amount (s.hincrby key field amount))
  | exec => ∀ queue, s.transactionQueue = some queue →
      Guarded (fun s op => (s.execOp op).2)
        (fun s op => ∀ key amount, op.counter = some (key, amount) →
          P (s.queuedAddition key amount (s.execOp op)))
        { s with transactionQueue := none } queue

/-- Every addition of a counter operation is exact or refused if and only if it stays in range. -/
theorem counter_exact_iff (s : KvStore) (op : CounterOp) :
    op.Meets Addition.ExactOrRefused s ↔ op.Meets Addition.InRange s := by
  cases op with
  | incr key => exact s.addToInt_exact_iff key 1
  | decr key => exact s.addToInt_exact_iff key (-1)
  | incrby key amount => exact s.addToInt_exact_iff key amount
  | hincrby key field amount => exact KvStore.hincrby_exact_iff field amount
  | exec =>
      refine forall_congr' fun queue => imp_congr_right fun _ => guarded_congr fun s op => ?_
      refine forall_congr' fun key => forall_congr' fun amount => imp_congr_right fun hop => ?_
      rw [TransactionOp.execOp_counter hop]
      exact s.execAdd_exact_iff key amount

/-- A counter at the upper end of the range. -/
def fullCounter : KvStore := (KvStore.new.set 0 "c" (.int Int64.maxValue)).2

/-- One more than the largest number is the smallest one. -/
theorem incr_wraps : (fullCounter.incr "c").1 = .ok Int64.minValue ∧
    ¬ (incr "c").Meets Addition.ExactOrRefused fullCounter := by
  refine ⟨by decide +kernel, fun h => ?_⟩
  have hheld : fullCounter.counter "c" = some Int64.maxValue.toInt := by decide +kernel
  have hanswer : (fullCounter.incr "c").1 = .ok Int64.minValue := by decide +kernel
  simp only [Meets, Addition.ExactOrRefused, KvStore.keyAddition, hanswer, hheld, Except.toOption,
    Option.map_some] at h
  exact absurd (h _ rfl).1 (by decide)

end CounterOp

end Daikon
