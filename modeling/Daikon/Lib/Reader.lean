/-
# Lib.Reader -- a reader that counts what it keeps

A log is read in pages. The reader keeps the first element of each key, and takes the number of
elements it has kept for its position in the log. Where a key comes again the position falls behind
what was read: the next page begins with elements that were read before, and once it holds nothing
else the reader does not move again. `iterate_eq_total_iff` says when that happens.

The pages are of one size. How far a page brings the reader is counted in distinct keys (`distinct`), and
the whole question becomes one about two functions of numbers: `advance`, which is what a page does to a
position, and its iterates.

There are three results about them. With every key in reach a page is a step forward (`lt_advance`); where a
page holds keys that were all seen before, the reader stays where it is for ever (`iterate_lt_total`); and
one of the two happens, so that it can be told from the log alone whether the reader comes to the end
(`iterate_eq_total_iff`).
-/
import Daikon.Lib.FirstBy
import Mathlib.Logic.Function.Iterate

namespace Lib.Reader

variable {α K : Type*} [DecidableEq K] (key : α → K) (page : Nat)

/-- How many keys the first `n` elements have. -/
def distinct (l : List α) (n : Nat) : Nat := (firstBy key ∅ (l.take n)).length

/-- The number of elements there are to keep. -/
def total (l : List α) : Nat := (firstBy key ∅ l).length

/-- The position after a page. -/
def advance (l : List α) (p : Nat) : Nat := max p (distinct key l (p + page))

section

variable {key} {l : List α}

theorem keys_firstBy (l : List α) : keys key l ⊆ keys key (firstBy key ∅ l) := by
  have h : keys key (l.take (l.length + (firstBy key ∅ l).length)) ⊆ _ :=
    keys_take_subset l ∅ (l.length + (firstBy key ∅ l).length)
  rwa [List.take_of_length_le (by omega), List.take_of_length_le (by omega), Finset.empty_union] at h

theorem prefix_firstBy (l : List α) (n : Nat) : firstBy key ∅ (l.take n) <+: firstBy key ∅ l := by
  conv_rhs => rw [← List.take_append_drop n l, firstBy_append]
  exact List.prefix_append _ _

theorem distinct_le_total (key : α → K) (l : List α) (n : Nat) : distinct key l n ≤ total key l :=
  (prefix_firstBy l n).length_le

theorem firstBy_length_le (l : List α) : ∀ seen : Finset K, (firstBy key seen l).length ≤ l.length := by
  induction l with
  | nil => intro seen; rfl
  | cons a l ih =>
      intro seen
      unfold firstBy
      split
      · exact (ih seen).trans (Nat.le_succ _)
      · exact Nat.succ_le_succ (ih _)

/-- More elements have at most so many more keys. -/
theorem distinct_add_le (key : α → K) (l : List α) (n m : Nat) :
    distinct key l (n + m) ≤ distinct key l n + m := by
  rw [distinct, List.take_add, firstBy_append, List.length_append, ← distinct]
  have hpage : (firstBy key (∅ ∪ keys key (l.take n)) ((l.drop n).take m)).length ≤ _ :=
    firstBy_length_le ((l.drop n).take m) (∅ ∪ keys key (l.take n))
  have htake := List.length_take_le m (l.drop n)
  omega

theorem distinct_mono (key : α → K) (l : List α) {n m : Nat} (h : n ≤ m) :
    distinct key l n ≤ distinct key l m := by
  have hprefix : _ <+: firstBy key ∅ (l.take m) := prefix_firstBy (l.take m) n
  rw [List.take_take, Nat.min_eq_left h] at hprefix
  exact hprefix.length_le

theorem firstBy_eq_nil_iff {seen : Finset K} {l : List α} :
    firstBy key seen l = [] ↔ ∀ a ∈ l, key a ∈ seen := by
  constructor
  · intro h
    induction l with
    | nil => intro a ha; cases ha
    | cons b l ih =>
        have hb : key b ∈ seen := by
          by_contra hnot
          rw [firstBy_cons_of_notMem hnot] at h
          cases h
        rw [firstBy_cons_of_mem hb] at h
        exact List.forall_mem_cons.mpr ⟨hb, ih h⟩
  · intro h
    refine firstBy_eq_nil fun k hk => ?_
    obtain ⟨a, ha, rfl⟩ := mem_keys.mp hk
    exact h a ha

/-- The first elements have all the keys exactly when every element shares its key with one of them. -/
theorem distinct_eq_total_iff (key : α → K) (l : List α) (n : Nat) :
    distinct key l n = total key l ↔ ∀ a ∈ l, ∃ b ∈ l.take n, key b = key a := by
  have hsplit : total key l = distinct key l n
      + (firstBy key (keys key (l.take n)) (l.drop n)).length := by
    rw [total, distinct]
    conv_lhs => rw [← List.take_append_drop n l, firstBy_append, Finset.empty_union]
    rw [List.length_append]
  have hrest : distinct key l n = total key l ↔ ∀ a ∈ l.drop n, key a ∈ keys key (l.take n) := by
    rw [← firstBy_eq_nil_iff, ← List.length_eq_zero_iff]
    omega
  rw [hrest]
  constructor
  · intro h a ha
    rw [← List.take_append_drop n l, List.mem_append] at ha
    rcases ha with ha | ha
    · exact ⟨a, ha, rfl⟩
    · exact mem_keys.mp (h a ha)
  · exact fun h a ha => mem_keys.mpr (h a (List.mem_of_mem_drop ha))

/-- Reading a page with the keys of what was kept brings the reader to `advance`. -/
theorem length_page (p : Nat) :
    p + (firstBy key (keys key ((firstBy key ∅ l).take p)) ((l.drop p).take page)).length
      = advance key page l p := by
  have hseen : keys key (l.take p) ⊆ keys key ((firstBy key ∅ l).take p) := by
    have h : keys key (l.take p) ⊆ _ := keys_take_subset l ∅ p
    rwa [Finset.empty_union] at h
  have hread : firstBy key (keys key ((firstBy key ∅ l).take p)) (l.take (p + page))
      = firstBy key (keys key ((firstBy key ∅ l).take p)) ((l.drop p).take page) := by
    rw [List.take_add, firstBy_append, firstBy_eq_nil hseen, List.nil_append,
      Finset.union_eq_left.mpr hseen]
  have hprefix : _ <+: firstBy key ∅ l := prefix_firstBy l (p + page)
  obtain ⟨rest, hrest⟩ := hprefix
  rw [← hread, advance]
  by_cases hp : p ≤ distinct key l (p + page)
  · -- the page goes on where the reader is
    have htake : (firstBy key ∅ l).take p = (firstBy key ∅ (l.take (p + page))).take p := by
      rw [← hrest, List.take_append_of_le_length hp]
    have hdrop : firstBy key _ _ = _ := firstBy_drop (l.take (p + page)) ∅ p
    rw [Finset.empty_union] at hdrop
    rw [htake, hdrop, List.length_drop, Nat.max_eq_right hp, ← distinct]
    omega
  · -- every key of the page was kept before
    have hle : distinct key l (p + page) ≤ p := Nat.le_of_not_le hp
    have hall : keys key (l.take (p + page)) ⊆ keys key ((firstBy key ∅ l).take p) := by
      refine (keys_firstBy _).trans (keys_mono ?_)
      rw [← hrest, List.take_append, List.take_of_length_le hle]
      exact List.sublist_append_left _ _
    rw [firstBy_eq_nil hall, Nat.max_eq_left hle]
    rfl

/-! ## Page after page -/

variable {page}

theorem advance_le_total {p : Nat} (h : p ≤ total key l) : advance key page l p ≤ total key l :=
  Nat.max_le.mpr ⟨h, distinct_le_total key l _⟩

theorem iterate_le_total (n : Nat) : ∀ {p : Nat}, p ≤ total key l →
    (advance key page l)^[n] p ≤ total key l := by
  induction n with
  | zero => exact fun h => h
  | succ n ih => exact fun h => ih (advance_le_total h)

theorem le_iterate_self (n : Nat) : ∀ p : Nat, p ≤ (advance key page l)^[n] p := by
  induction n with
  | zero => exact fun p => Nat.le_refl p
  | succ n ih => exact fun p => (Nat.le_max_left _ _).trans (ih _)

/-- With every key in reach the reader moves, wherever it stands. -/
theorem lt_advance {p : Nat} (hp : p < total key l)
    (h : distinct key l (total key l - 1 + page) = total key l) : p < advance key page l p := by
  refine lt_of_lt_of_le ?_ (Nat.le_max_right _ _)
  have hadd := distinct_add_le key l (p + page) (total key l - 1 - p)
  rw [show p + page + (total key l - 1 - p) = total key l - 1 + page by omega, h] at hadd
  omega

theorem le_iterate (n : Nat) : ∀ {p : Nat}, p ≤ total key l →
    distinct key l (total key l - 1 + page) = total key l →
    min (total key l) (p + n) ≤ (advance key page l)^[n] p := by
  induction n with
  | zero => intro p _ _; exact Nat.min_le_right _ _
  | succ n ih =>
      intro p hp h
      rw [Function.iterate_succ_apply]
      have hmoved : advance key page l p ≤ total key l := advance_le_total hp
      have hrest := ih hmoved h
      rcases Nat.eq_or_lt_of_le hp with heq | hlt
      · have hstay : advance key page l p = p :=
          Nat.le_antisymm ((advance_le_total hp).trans heq.ge) (Nat.le_max_left _ _)
        rw [hstay] at hrest ⊢
        omega
      · have hmoves := lt_advance hlt h
        omega

/-- Without it the reader stays in front of the last key. -/
theorem iterate_lt_total (n : Nat) : ∀ {p : Nat}, p < total key l →
    distinct key l (total key l - 1 + page) ≠ total key l → (advance key page l)^[n] p < total key l := by
  induction n with
  | zero => exact fun h _ => h
  | succ n ih =>
      intro p hp h
      refine ih ?_ h
      have hle := distinct_mono key l (show p + page ≤ total key l - 1 + page by omega)
      have htotal := distinct_le_total key l (total key l - 1 + page)
      unfold advance
      omega

/-- After enough pages the reader has kept everything exactly when it had before, or the last new key
stands within a page of the last position in front of it. -/
theorem iterate_eq_total_iff {p n : Nat} (hp : p ≤ total key l) (hn : total key l ≤ p + n) :
    (advance key page l)^[n] p = total key l ↔
      p = total key l ∨ distinct key l (total key l - 1 + page) = total key l := by
  have hle : (advance key page l)^[n] p ≤ total key l := iterate_le_total n hp
  constructor
  · intro h
    by_contra hnot
    rw [not_or] at hnot
    exact absurd h (iterate_lt_total n (Nat.lt_of_le_of_ne hp hnot.1) hnot.2).ne
  · rintro (rfl | h)
    · exact Nat.le_antisymm hle (le_iterate_self n _)
    · have hreach := le_iterate n hp h
      omega

/-- Where no key comes twice, every page is a step forward. -/
theorem iterate_of_nodup (h : (l.map key).Nodup) (n : Nat) : ∀ {p : Nat}, p ≤ l.length →
    (advance key page l)^[n] p = min l.length (p + n * page) := by
  have hdistinct : ∀ m, distinct key l m = min m l.length := fun m => by
    have hkeep : firstBy key ∅ (l.take m) = l.take m :=
      firstBy_eq_self (h.sublist ((List.take_sublist m l).map key)) fun _ _ => Finset.notMem_empty _
    rw [distinct, hkeep, List.length_take]
  induction n with
  | zero => intro p hp; simpa using hp
  | succ n ih =>
      intro p hp
      have hadvance : advance key page l p = min l.length (p + page) := by
        rw [advance, hdistinct]
        omega
      rw [Function.iterate_succ_apply, hadvance, ih (Nat.min_le_left _ _), Nat.succ_mul]
      omega

end

end Lib.Reader
