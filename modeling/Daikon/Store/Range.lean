/-
# Daikon.Store.Range -- the index rule of `lrange`

A negative index counts from the end. The code clamps both indices at the head, so a stop before the head
stands for the head itself: a range that starts there gets the first element where its rule gives none
(`lrange_follows_iff`). The slice is in range in every case (`lrangeSlice_bounds`).

The rule is the usual one: an index below zero counts from the end, a start before the head is the head, and
a stop behind the end is the end. `selected` states it without clamping a stop, by asking of every element
whether its position lies between the two, and the code is compared with it.

All index arithmetic of the source is done in `i64` and cast to `usize`; `asUsize` follows the cast, so that
a negative number would become a very large one. The bounds show that it never comes to that.
-/
import Daikon.Store.Collections
import Daikon.Store.Text

namespace Daikon

/-- The position that an index denotes in a list of that length. -/
def position (len : Nat) (index : Int) : Int := if index < 0 then len + index else index

/-- The elements from one position to another; a start before the head is the head. -/
def selected (list : List String) (start stop : Int) : List String :=
  (list.zipIdx.filter fun p =>
    max (position list.length start) 0 ≤ p.2 ∧ (p.2 : Int) ≤ position list.length stop).map Prod.fst

namespace KvStore

/-- Where `lrange` starts. -/
def startIndex (len : Nat) (start : Int) : Nat :=
  if start < 0 then asUsize (max (len + start) 0) else asUsize (min start len)

/-- Where `lrange` stops, inclusively. -/
def stopIndex (len : Nat) (stop : Int) : Nat :=
  if stop < 0 then asUsize (max (len + stop) 0) else asUsize (min stop (len - 1))

/-- The inclusive bounds with which `lrange` slices a list of that length, if it does. -/
def lrangeSlice (len : Nat) (start stop : Int) : Option (Nat × Nat) :=
  if startIndex len start > stopIndex len stop ∨ startIndex len start ≥ len then none
  else some (startIndex len start, stopIndex len stop)

theorem lrange_eq {s : KvStore} {now : Nat} {key : String} {list : List String}
    (h : s.get now key = some (.list list)) (start stop : Int) :
    s.lrange now key start stop = .ok ((lrangeSlice list.length start stop).elim []
      fun p => (list.take (p.2 + 1)).drop p.1) := by
  unfold lrange lrangeSlice
  rw [h]
  show (if startIndex list.length start > stopIndex list.length stop ∨
      startIndex list.length start ≥ list.length then Except.ok []
    else .ok ((list.take (stopIndex list.length stop + 1)).drop (startIndex list.length start))) = _
  split <;> rfl

/-! ## Slices as selections -/

/-- The elements between two positions are a slice. -/
theorem filter_zipIdx_eq_slice (start stop : Nat) (list : List String) : ∀ k,
    ((list.zipIdx k).filter fun p => start ≤ p.2 ∧ p.2 ≤ stop).map Prod.fst
      = (list.take (stop + 1 - k)).drop (start - k) := by
  induction list with
  | nil => intro k; simp
  | cons a list ih =>
      intro k
      rw [List.zipIdx_cons, List.filter_cons]
      by_cases hstop : k ≤ stop
      -- the first element is taken, skipped, or behind the slice
      · have htake : stop + 1 - k = (stop + 1 - (k + 1)) + 1 := by omega
        by_cases hstart : start ≤ k
        · have hdrop : start - k = 0 := by omega
          have hdrop' : start - (k + 1) = 0 := by omega
          rw [if_pos (by simp [hstart, hstop]), List.map_cons, ih, htake, hdrop, hdrop']
          rfl
        · have hdrop : start - k = (start - (k + 1)) + 1 := by omega
          rw [if_neg (by simp [hstart]), ih, htake, hdrop]
          rfl
      · have htake : stop + 1 - k = 0 := by omega
        have htake' : stop + 1 - (k + 1) = 0 := by omega
        rw [if_neg (by simp [hstop]), ih, htake, htake']
        simp

/-- What an index rule selects is a slice, or nothing if it ends before the head. -/
theorem selected_eq (list : List String) (start stop : Int) :
    selected list start stop = if position list.length stop < 0 then []
      else (list.take ((position list.length stop).toNat + 1)).drop
        (max (position list.length start) 0).toNat := by
  unfold selected
  generalize position list.length stop = last
  generalize position list.length start = first
  split
  · next hlast =>
      rw [List.filter_eq_nil_iff.mpr, List.map_nil]
      intro p _ hp
      simp only [decide_eq_true_eq] at hp
      omega
  · next hlast =>
      rw [← Nat.sub_zero (last.toNat + 1), ← Nat.sub_zero (max first 0).toNat,
        ← filter_zipIdx_eq_slice _ _ list 0]
      congr 2
      funext p
      have hsame : (max first 0 ≤ p.2 ∧ (p.2 : Int) ≤ last) ↔
          ((max first 0).toNat ≤ p.2 ∧ p.2 ≤ last.toNat) := by omega
      simp only [hsame]

theorem slice_eq_nil_iff (list : List String) (first last : Nat) :
    (list.take (last + 1)).drop first = [] ↔ last < first ∨ list.length ≤ first := by
  rw [List.drop_eq_nil_iff, List.length_take]
  omega

/-! ## The slice that the code takes -/

/-- A `Vec<String>` has less than `2 ^ 63` elements. -/
theorem startIndex_eq {len : Nat} (hlen : len < 2 ^ 63) (start : Int64) :
    (startIndex len start.toInt : Int) = min (max (position len start.toInt) 0) len := by
  have := start.le_toInt
  have := start.toInt_lt
  unfold startIndex position asUsize
  split <;> omega

theorem stopIndex_eq {len : Nat} (hlen : len < 2 ^ 63) (hpos : 0 < len) (stop : Int64) :
    (stopIndex len stop.toInt : Int) = min (max (position len stop.toInt) 0) (len - 1) := by
  have := stop.le_toInt
  have := stop.toInt_lt
  unfold stopIndex position asUsize
  split <;> omega

/-- The slice ends inside the list and does not start behind its end. -/
theorem lrangeSlice_bounds {len : Nat} (hlen : len < 2 ^ 63) (start stop : Int64) {first last : Nat}
    (hslice : lrangeSlice len start.toInt stop.toInt = some (first, last)) :
    first ≤ last ∧ last < len := by
  unfold lrangeSlice at hslice
  split at hslice
  · cases hslice
  · next hbounds =>
      cases hslice
      have hpos : 0 < len := by omega
      have := stopIndex_eq hlen hpos stop
      omega

/-- The code returns the slice between its two indices, which is empty where it does not slice. -/
theorem lrange_slice {s : KvStore} {now : Nat} {key : String} {list : List String}
    (hget : s.get now key = some (.list list)) (start stop : Int) :
    s.lrange now key start stop = .ok ((list.take (stopIndex list.length stop + 1)).drop
      (startIndex list.length start)) := by
  rw [lrange_eq hget, lrangeSlice]
  split
  · next houtside =>
      have hnil := (slice_eq_nil_iff list (startIndex list.length start)
        (stopIndex list.length stop)).mpr houtside
      rw [hnil]
      rfl
  · rfl

/-- From the head on, the code follows the rule. -/
theorem slice_eq_selected {list : List String} (hlen : list.length < 2 ^ 63) (start stop : Int64)
    (hlast : 0 ≤ position list.length stop.toInt) :
    (list.take (stopIndex list.length stop.toInt + 1)).drop (startIndex list.length start.toInt)
      = selected list start.toInt stop.toInt := by
  rw [selected_eq, if_neg (by omega)]
  by_cases hnil : list = []
  · rw [hnil]
    simp
  · have hpos : 0 < list.length := List.length_pos_iff.mpr hnil
    have hfirst := startIndex_eq hlen start
    have hstop := stopIndex_eq hlen hpos stop
    have htake : list.take (stopIndex list.length stop.toInt + 1)
        = list.take ((position list.length stop.toInt).toNat + 1) := by
      rw [List.take_eq_take_iff]
      omega
    rw [htake]
    -- the start is clamped at the end of the list, where nothing is left anyhow
    by_cases hinside : max (position list.length start.toInt) 0 ≤ list.length
    · have hsame : startIndex list.length start.toInt
          = (max (position list.length start.toInt) 0).toNat := by omega
      rw [hsame]
    · rw [(slice_eq_nil_iff list _ _).mpr (by omega), (slice_eq_nil_iff list _ _).mpr (by omega)]

/-- `lrange` slices inside the list. It follows the index rule unless a range that starts at the head
of a nonempty list stops before the head. -/
theorem lrange_follows_iff {s : KvStore} {now : Nat} {key : String} {list : List String}
    (hget : s.get now key = some (.list list)) (hlen : list.length < 2 ^ 63) (start stop : Int64) :
    (∀ first last, lrangeSlice list.length start.toInt stop.toInt = some (first, last) →
      first ≤ last ∧ last < list.length) ∧
    (s.lrange now key start.toInt stop.toInt = .ok (selected list start.toInt stop.toInt) ↔
      list = [] ∨ 0 ≤ position list.length stop.toInt ∨ 0 < position list.length start.toInt) := by
  refine ⟨fun first last h => lrangeSlice_bounds hlen start stop h, ?_⟩
  rw [lrange_slice hget, Except.ok.injEq]
  by_cases hlast : 0 ≤ position list.length stop.toInt
  · exact iff_of_true (slice_eq_selected hlen start stop hlast) (.inr (.inl hlast))
  · rw [selected_eq, if_pos (by omega), slice_eq_nil_iff]
    by_cases hnil : list = []
    · simp [hnil]
    · have hpos : 0 < list.length := List.length_pos_iff.mpr hnil
      have hfirst := startIndex_eq hlen start
      have hstop := stopIndex_eq hlen hpos stop
      simp only [hnil, hlast, false_or]
      omega

/-- A list of two elements. -/
def twoElements : KvStore := (new.rpush "mylist" ["a", "b"]).2

theorem twoElements_get : twoElements.get 0 "mylist" = some (.list ["a", "b"]) := by decide +kernel

theorem lrange_follows_iff_overshoot :
    twoElements.lrange 0 "mylist" (Int64.ofInt 0).toInt (Int64.ofInt 100).toInt
      = .ok (selected ["a", "b"] (Int64.ofInt 0).toInt (Int64.ofInt 100).toInt) :=
  (lrange_follows_iff twoElements_get (by decide) 0 100).2.mpr (.inr (.inl (by decide)))

/-- A stop 98 positions before the head gets the head. -/
theorem lrange_before_head :
    twoElements.lrange 0 "mylist" (Int64.ofInt 0).toInt (Int64.ofInt (-100)).toInt = .ok ["a"] ∧
      selected ["a", "b"] (Int64.ofInt 0).toInt (Int64.ofInt (-100)).toInt = [] := by
  decide +kernel

end KvStore

end Daikon
