/-
# Daikon.Store.Deque -- lists are double-ended sequences

The list methods on one key, from the key missing on, answer and store what a sequence does that grows and
shrinks at both ends (`lists_are_deques`). A list that was popped empty stays stored, and stands for the
same sequence as a missing key.

The condition that all that is pushed fits a `Vec` is about indices: `lrange` works with signed 64-bit
numbers, and a list of 2^63 texts cannot exist in memory. It is asked once, of the run, and used to read the
whole list back.

A key that no push may create (an empty or an overlong one) is refused by both pushes and is missing for the
other calls, so its history is that of an empty sequence with refusals in the place of lengths
(`refusedAnswer`). That no other key is touched is part of the statement (`OnlyAt`).
-/
import Daikon.Lib.Deque
import Daikon.Store.Range
import Daikon.Store.Refine

namespace Daikon

open Lib.Deque (Op Answer)

namespace KvStore

/-! ## The calls -/

/-- The list method of an operation; the elements are read by `lrange` from 0 to -1. -/
def listCall (s : KvStore) (key : String) (now : Nat) :
    Op String → Except KvStoreError (Answer String) × KvStore
  | .pushFront values => ((s.lpush key values).1.map .count, (s.lpush key values).2)
  | .pushBack values => ((s.rpush key values).1.map .count, (s.rpush key values).2)
  | .popFront => ((s.lpop key).1.map .popped, (s.lpop key).2)
  | .popBack => ((s.rpop key).1.map .popped, (s.rpop key).2)
  | .length => ((s.llen now key).map .count, s)
  | .elements => ((s.lrange now key 0 (-1)).map .elements, s)

/-- The answers to a list of calls, each at its clock, and the store they leave. -/
def listCalls (s : KvStore) (key : String) :
    List (Nat × Op String) → List (Except KvStoreError (Answer String)) × KvStore
  | [] => ([], s)
  | c :: cs =>
      let rest := listCalls (s.listCall key c.1 c.2).2 key cs
      ((s.listCall key c.1 c.2).1 :: rest.1, rest.2)

/-- The key holds the list, without an expiry, or is missing and the list is empty. -/
def HoldsList (s : KvStore) (key : String) (list : List String) : Prop :=
  s.contents key = some ⟨.list list, none⟩ ∨ list = [] ∧ s.contents key = none

/-- A change at this key only, under the same limits. -/
structure OnlyAt (s s' : KvStore) (key : String) : Prop where
  frame : ∀ k, k ≠ key → s'.contents k = s.contents k
  config : s'.config = s.config

theorem OnlyAt.refl (s : KvStore) (key : String) : OnlyAt s s key := ⟨fun _ _ => rfl, rfl⟩

theorem OnlyAt.trans {s s' s'' : KvStore} {key : String} (h : OnlyAt s s' key) (h' : OnlyAt s' s'' key) :
    OnlyAt s s'' key :=
  ⟨fun k hk => (h'.frame k hk).trans (h.frame k hk), h'.config.trans h.config⟩

/-- An entry is put under the key. -/
theorem OnlyAt.of_put {s s' : KvStore} {key : String} {entry : ValueWithTTL}
    (hstore : s'.store = s.store.insert key entry) (hconfig : s'.config = s.config) : OnlyAt s s' key := by
  refine ⟨fun k hk => ?_, hconfig⟩
  unfold contents
  rw [hstore, contents_insert, Function.update_of_ne hk]
  rfl

theorem contents_of_put {s s' : KvStore} {key : String} {entry : ValueWithTTL}
    (hstore : s'.store = s.store.insert key entry) : s'.contents key = some entry := by
  unfold contents
  rw [hstore, contents_insert, Function.update_self]

/-! ## One call -/

section

variable {s : KvStore} {key : String} {list : List String}

/-- One by one, the values come to stand in front in reverse. -/
theorem pushFront_eq (values : List String) : ∀ list : List String,
    pushFront list values = values.reverse ++ list := by
  induction values with
  | nil => intro list; rfl
  | cons v values ih =>
      intro list
      rw [pushFront, List.foldl_cons, ← pushFront, ih, List.reverse_cons, List.append_assoc]
      rfl

theorem pushWith_holds (push : List String → List String → List String) (values : List String)
    (hvalid : s.config.ValidKey key) (h : s.HoldsList key list) :
    (s.pushWith push key values).1 = .ok (push list values).length ∧
      (s.pushWith push key values).2.HoldsList key (push list values) ∧
      OnlyAt s (s.pushWith push key values).2 key := by
  unfold pushWith
  rw [validateKey_eq s key hvalid]
  rcases h with hlist | ⟨rfl, hnone⟩
  · rw [show s.store[key]? = _ from hlist]
    exact ⟨rfl, .inl (contents_of_put rfl), .of_put rfl rfl⟩
  · rw [show s.store[key]? = _ from hnone]
    exact ⟨rfl, .inl (contents_of_put rfl), .of_put rfl rfl⟩

theorem popWith_holds (pop : List String → Option (String × List String)) (hempty : pop [] = none)
    (h : s.HoldsList key list) :
    (s.popWith pop key).1 = .ok ((pop list).map Prod.fst) ∧
      (s.popWith pop key).2.HoldsList key ((pop list).elim list Prod.snd) ∧
      OnlyAt s (s.popWith pop key).2 key := by
  unfold popWith
  rcases h with hlist | ⟨rfl, hnone⟩
  · rw [show s.store[key]? = _ from hlist]
    cases hpop : pop list with
    | none => simpa [hpop] using ⟨.inl hlist, .refl s key⟩
    | some p =>
        obtain ⟨value, rest⟩ := p
        simp only [hpop]
        exact ⟨rfl, .inl (contents_of_put rfl), .of_put rfl rfl⟩
  · rw [show s.store[key]? = _ from hnone, hempty]
    exact ⟨rfl, .inr ⟨rfl, hnone⟩, .refl s key⟩

theorem HoldsList.get (h : s.HoldsList key list) (now : Nat) :
    s.get now key = some (.list list) ∨ list = [] ∧ s.get now key = none := by
  unfold KvStore.get
  rcases h with hlist | ⟨rfl, hnone⟩
  · rw [show s.store[key]? = _ from hlist]
    exact .inl rfl
  · rw [show s.store[key]? = _ from hnone]
    exact .inr ⟨rfl, rfl⟩

theorem llen_holds (h : s.HoldsList key list) (now : Nat) : s.llen now key = .ok list.length := by
  unfold llen
  rcases h.get now with hlist | ⟨rfl, hnone⟩
  · rw [hlist]
  · rw [hnone]
    rfl

/-- From 0 to -1 are all elements. -/
theorem lrange_holds (h : s.HoldsList key list) (hlen : list.length < 2 ^ 63) (now : Nat) :
    s.lrange now key 0 (-1) = .ok list := by
  rcases h.get now with hlist | ⟨rfl, hnone⟩
  · rw [lrange_slice hlist]
    have hstart : startIndex list.length 0 = 0 := by
      unfold startIndex asUsize
      rw [if_neg (by decide)]
      omega
    have hstop : list.length ≤ stopIndex list.length (-1) + 1 := by
      unfold stopIndex asUsize
      rw [if_pos (by decide)]
      omega
    rw [hstart, List.drop_zero, List.take_of_length_le hstop]
  · unfold lrange
    rw [hnone]

/-- One call does to the list what the operation does to the sequence, and nothing else. -/
theorem listCall_step (hvalid : s.config.ValidKey key) (h : s.HoldsList key list)
    (hlen : list.length < 2 ^ 63) (now : Nat) (op : Op String) :
    (s.listCall key now op).1 = .ok (Lib.Deque.step list op).1 ∧
      (s.listCall key now op).2.HoldsList key (Lib.Deque.step list op).2 ∧
      OnlyAt s (s.listCall key now op).2 key := by
  cases op with
  | pushFront values =>
      have hpush := pushWith_holds pushFront values hvalid h
      rw [pushFront_eq] at hpush
      exact ⟨congrArg (Except.map Answer.count) hpush.1, hpush.2⟩
  | pushBack values =>
      have hpush := pushWith_holds (· ++ ·) values hvalid h
      exact ⟨congrArg (Except.map Answer.count) hpush.1, hpush.2⟩
  | popFront =>
      have hpop := popWith_holds popFront rfl h
      have hfirst : (popFront list).map Prod.fst = list.head? ∧
          (popFront list).elim list Prod.snd = list.tail := by
        cases list <;> exact ⟨rfl, rfl⟩
      rw [hfirst.1, hfirst.2] at hpop
      exact ⟨congrArg (Except.map Answer.popped) hpop.1, hpop.2⟩
  | popBack =>
      have hpop := popWith_holds popBack rfl h
      have hlast : (popBack list).map Prod.fst = list.getLast? ∧
          (popBack list).elim list Prod.snd = list.dropLast := by
        unfold popBack
        cases hlast : list.getLast? with
        | none => simp [List.getLast?_eq_none_iff.mp hlast]
        | some a => exact ⟨rfl, rfl⟩
      rw [hlast.1, hlast.2] at hpop
      exact ⟨congrArg (Except.map Answer.popped) hpop.1, hpop.2⟩
  | length => exact ⟨congrArg (Except.map Answer.count) (llen_holds h now), h, .refl s key⟩
  | elements => exact ⟨congrArg (Except.map Answer.elements) (lrange_holds h hlen now), h, .refl s key⟩

theorem step_length_le (list : List String) (op : Op String) :
    (Lib.Deque.step list op).2.length ≤ list.length + op.pushed.length := by
  have hlength := (Lib.Deque.step_perm list op).length_eq
  rw [List.length_append, List.length_append] at hlength
  omega

/-- The run lemma: as long as all that is pushed fits a `Vec`, the calls do to the list what the operations
do to the sequence. -/
theorem listCalls_run (cs : List (Nat × Op String)) : ∀ {s : KvStore} {list : List String},
    s.config.ValidKey key → s.HoldsList key list →
      list.length + (cs.flatMap fun c => c.2.pushed).length < 2 ^ 63 →
        (s.listCalls key cs).1 = (Lib.Deque.run list (cs.map Prod.snd)).1.map .ok ∧
          (s.listCalls key cs).2.HoldsList key (Lib.Deque.run list (cs.map Prod.snd)).2 ∧
          OnlyAt s (s.listCalls key cs).2 key := by
  induction cs with
  | nil => exact fun _ h _ => ⟨rfl, h, .refl _ key⟩
  | cons c cs ih =>
      intro s list hvalid h hbound
      rw [List.flatMap_cons, List.length_append] at hbound
      obtain ⟨hanswer, hnext, honly⟩ := listCall_step hvalid h (by omega) c.1 c.2
      have hle := step_length_le list c.2
      obtain ⟨hanswers, hlast, hrest⟩ := ih (honly.config ▸ hvalid) hnext (by omega)
      refine ⟨?_, hlast, honly.trans hrest⟩
      show _ :: _ = _ :: _
      rw [hanswer, hanswers]

/-- What is answered for a key that no push may create. -/
def refusedAnswer (e : KvStoreError) : Op String → Except KvStoreError (Answer String)
  | .pushFront _ | .pushBack _ => .error e
  | op => .ok (Lib.Deque.step [] op).1

theorem listCall_refused {e : KvStoreError} (hmissing : s.contents key = none)
    (hrefused : s.validateKey key = .error e) (now : Nat) (op : Op String) :
    s.listCall key now op = (refusedAnswer e op, s) := by
  have hstore : s.store[key]? = none := hmissing
  have hget : s.get now key = none := by rw [get, hstore]; rfl
  cases op with
  | pushFront values => simp only [listCall, lpush, pushWith, hrefused]; rfl
  | pushBack values => simp only [listCall, rpush, pushWith, hrefused]; rfl
  | popFront => simp only [listCall, lpop, popWith, hstore]; rfl
  | popBack => simp only [listCall, rpop, popWith, hstore]; rfl
  | length => simp only [listCall, llen, hget]; rfl
  | elements => simp only [listCall, lrange, hget]; rfl

theorem listCalls_refused {e : KvStoreError} (hmissing : s.contents key = none)
    (hrefused : s.validateKey key = .error e) (cs : List (Nat × Op String)) :
    s.listCalls key cs = (cs.map fun c => refusedAnswer e c.2, s) := by
  induction cs with
  | nil => rfl
  | cons c cs ih => rw [listCalls, listCall_refused hmissing hrefused, ih]; rfl

end

/-- From a missing key on, the list methods answer and store what a double-ended sequence does, and touch
no other key: what was popped and what is left is what was pushed, and `llen` is the difference. Under a
key outside the limits the pushes are refused, and it stays missing. -/
theorem lists_are_deques (s : KvStore) (key : String) (hmissing : s.contents key = none)
    (cs : List (Nat × Op String)) (hbound : (cs.flatMap fun c => c.2.pushed).length < 2 ^ 63) :
    (s.config.ValidKey key →
      (s.listCalls key cs).1 = (Lib.Deque.run [] (cs.map Prod.snd)).1.map .ok ∧
      (s.listCalls key cs).2.HoldsList key (Lib.Deque.run [] (cs.map Prod.snd)).2 ∧
      (∀ k, k ≠ key → (s.listCalls key cs).2.contents k = s.contents k) ∧
      ((Lib.Deque.run [] (cs.map Prod.snd)).1.flatMap Answer.taken
        ++ (Lib.Deque.run [] (cs.map Prod.snd)).2).Perm (cs.flatMap fun c => c.2.pushed) ∧
      ∀ now, (s.listCalls key cs).2.llen now key = .ok ((cs.flatMap fun c => c.2.pushed).length
        - ((Lib.Deque.run [] (cs.map Prod.snd)).1.flatMap Answer.taken).length)) ∧
    ∀ e, s.validateKey key = .error e →
      s.listCalls key cs = (cs.map fun c => refusedAnswer e c.2, s) := by
  refine ⟨fun hvalid => ?_, fun e he => listCalls_refused hmissing he cs⟩
  have hempty : s.HoldsList key [] := .inr ⟨rfl, hmissing⟩
  obtain ⟨hanswers, hlast, honly⟩ := listCalls_run cs hvalid hempty (by simpa using hbound)
  have hpushed : cs.flatMap (fun c => c.2.pushed) = (cs.map Prod.snd).flatMap Op.pushed :=
    (List.flatMap_map ..).symm
  refine ⟨hanswers, hlast, honly.frame, ?_, fun now => ?_⟩
  · rw [hpushed]
    exact Lib.Deque.run_perm (cs.map Prod.snd) []
  · have hlength := Lib.Deque.run_length [] (cs.map Prod.snd)
    rw [List.length_nil, ← hpushed] at hlength
    rw [llen_holds hlast now]
    congr 1
    omega

/-- Two pushes and a pop. -/
theorem lists_are_deques_mixed :
    (new.listCalls "q" [(0, .pushFront ["a", "b"]), (0, .pushBack ["c"]), (0, .popFront)]).2.llen 0 "q"
      = .ok 2 :=
  ((lists_are_deques new "q" (by decide +kernel)
    [(0, .pushFront ["a", "b"]), (0, .pushBack ["c"]), (0, .popFront)] (by decide)).1
      (by decide)).2.2.2.2 0

end KvStore

end Daikon
