/-
# Lib.FirstBy -- a list without the elements whose key came before

`firstBy key seen l` keeps the first element of each key, and none whose key is already in `seen`.
Taking some of the result and going through the list again with their keys gives the rest of it
(`firstBy_drop`): a reader that remembers keys can stop anywhere and start over from the beginning.

The keys seen so far are an argument, so that a list can be gone through in parts: `firstBy_append` gives
the second part the keys of the first. Both the order of the elements and the first of each key are kept,
which is what sets this apart from removing duplicates: there is no question of which of two equal elements
stays, for elements of one key need not be equal.

The main rule is `firstBy_drop`. It says when nothing is lost by starting over: whoever has the keys of what
was taken, and goes through the whole list again, gets what was left, and nothing twice.
-/
import Mathlib.Data.Finset.Basic
import Mathlib.Data.Finset.Lattice.Lemmas
import Mathlib.Data.Finset.Dedup

namespace Lib

variable {α K : Type*} [DecidableEq K]

/-- The first element of each key that is not in `seen`. -/
def firstBy (key : α → K) : Finset K → List α → List α
  | _, [] => []
  | seen, a :: l =>
      if key a ∈ seen then firstBy key seen l else a :: firstBy key (insert (key a) seen) l

/-- The keys of a list. -/
def keys (key : α → K) (l : List α) : Finset K := (l.map key).toFinset

section

variable {key : α → K}

@[simp] theorem firstBy_nil (seen : Finset K) : firstBy key seen [] = [] := rfl

theorem firstBy_cons_of_mem {seen : Finset K} {a : α} (h : key a ∈ seen) (l : List α) :
    firstBy key seen (a :: l) = firstBy key seen l := by
  rw [firstBy, if_pos h]

theorem firstBy_cons_of_notMem {seen : Finset K} {a : α} (h : key a ∉ seen) (l : List α) :
    firstBy key seen (a :: l) = a :: firstBy key (insert (key a) seen) l := by
  rw [firstBy, if_neg h]

@[simp] theorem keys_nil : keys key [] = ∅ := rfl

@[simp] theorem keys_cons (a : α) (l : List α) : keys key (a :: l) = insert (key a) (keys key l) := by
  simp [keys]

theorem keys_append (l₁ l₂ : List α) : keys key (l₁ ++ l₂) = keys key l₁ ∪ keys key l₂ := by
  simp [keys]

theorem mem_keys {k : K} {l : List α} : k ∈ keys key l ↔ ∃ a ∈ l, key a = k := by
  simp [keys]

theorem keys_mono {l₁ l₂ : List α} (h : l₁.Sublist l₂) : keys key l₁ ⊆ keys key l₂ := by
  intro k hk
  obtain ⟨a, ha, rfl⟩ := mem_keys.mp hk
  exact mem_keys.mpr ⟨a, h.subset ha, rfl⟩

theorem firstBy_append (l₁ l₂ : List α) : ∀ seen : Finset K,
    firstBy key seen (l₁ ++ l₂) = firstBy key seen l₁ ++ firstBy key (seen ∪ keys key l₁) l₂ := by
  induction l₁ with
  | nil => intro seen; simp
  | cons a l₁ ih =>
      intro seen
      by_cases h : key a ∈ seen
      · have hset : seen ∪ keys key (a :: l₁) = seen ∪ keys key l₁ := by
          rw [keys_cons, Finset.union_insert, Finset.insert_eq_of_mem (Finset.mem_union_left _ h)]
        rw [List.cons_append, firstBy_cons_of_mem h, firstBy_cons_of_mem h, ih, hset]
      · have hset : seen ∪ keys key (a :: l₁) = insert (key a) seen ∪ keys key l₁ := by
          rw [keys_cons, Finset.union_insert, Finset.insert_union]
        rw [List.cons_append, firstBy_cons_of_notMem h, firstBy_cons_of_notMem h, ih, hset,
          List.cons_append]

/-- Nothing is left of a list whose keys have all been seen. -/
theorem firstBy_eq_nil {seen : Finset K} {l : List α} (h : keys key l ⊆ seen) :
    firstBy key seen l = [] := by
  induction l with
  | nil => rfl
  | cons a l ih =>
      rw [keys_cons, Finset.insert_subset_iff] at h
      rw [firstBy_cons_of_mem h.1]
      exact ih h.2

/-- Remembering the keys of what was taken, the list yields what was dropped. -/
theorem firstBy_drop (l : List α) : ∀ (seen : Finset K) (m : Nat),
    firstBy key (seen ∪ keys key ((firstBy key seen l).take m)) l = (firstBy key seen l).drop m := by
  induction l with
  | nil => intro seen m; simp
  | cons a l ih =>
      intro seen m
      by_cases h : key a ∈ seen
      · rw [firstBy_cons_of_mem h, firstBy_cons_of_mem (Finset.mem_union_left _ h)]
        exact ih seen m
      · rw [firstBy_cons_of_notMem h]
        cases m with
        | zero =>
            rw [List.take_zero, keys_nil, Finset.union_empty, firstBy_cons_of_notMem h, List.drop_zero]
        | succ m =>
            have hset : seen ∪ keys key ((a :: firstBy key (insert (key a) seen) l).take (m + 1))
                = insert (key a) seen ∪ keys key ((firstBy key (insert (key a) seen) l).take m) := by
              rw [List.take_succ_cons, keys_cons, Finset.union_insert, Finset.insert_union]
            rw [hset, firstBy_cons_of_mem
              (Finset.mem_union_left _ (Finset.mem_insert_self (key a) seen)), List.drop_succ_cons]
            exact ih _ m

/-- Taking as many elements of the result as of the list gives all the keys of these. -/
theorem keys_take_subset (l : List α) : ∀ (seen : Finset K) (m : Nat),
    keys key (l.take m) ⊆ seen ∪ keys key ((firstBy key seen l).take m) := by
  induction l with
  | nil => intro seen m; simp
  | cons a l ih =>
      intro seen m
      cases m with
      | zero => simp
      | succ m =>
          rw [List.take_succ_cons, keys_cons, Finset.insert_subset_iff]
          by_cases h : key a ∈ seen
          · refine ⟨Finset.mem_union_left _ h, (ih seen m).trans ?_⟩
            rw [firstBy_cons_of_mem h]
            exact Finset.union_subset_union_right (keys_mono (List.take_sublist_take_left (Nat.le_succ m)))
          · rw [firstBy_cons_of_notMem h, List.take_succ_cons, keys_cons, Finset.union_insert,
              ← Finset.insert_union]
            exact ⟨Finset.mem_union_left _ (Finset.mem_insert_self _ _), ih _ m⟩

/-- A list whose elements are another's has the same first elements. -/
theorem map_firstBy {β : Type*} {f : β → α} {keyOf : β → K} (h : ∀ b, keyOf b = key (f b))
    (l : List β) : ∀ seen : Finset K,
    (firstBy keyOf seen l).map f = firstBy key seen (l.map f) := by
  induction l with
  | nil => intro seen; rfl
  | cons b l ih =>
      intro seen
      by_cases hb : key (f b) ∈ seen
      · rw [firstBy_cons_of_mem (by rwa [h]), List.map_cons, firstBy_cons_of_mem hb, ih]
      · rw [firstBy_cons_of_notMem (by rwa [h]), List.map_cons, List.map_cons,
          firstBy_cons_of_notMem hb, ih, h]

/-- A list of distinct, unseen keys is kept whole. -/
theorem firstBy_eq_self {l : List α} : ∀ {seen : Finset K}, (l.map key).Nodup →
    (∀ a ∈ l, key a ∉ seen) → firstBy key seen l = l := by
  induction l with
  | nil => intro seen _ _; rfl
  | cons a l ih =>
      intro seen hnodup hseen
      rw [List.map_cons, List.nodup_cons] at hnodup
      rw [firstBy_cons_of_notMem (hseen a (by simp)), ih hnodup.2]
      intro b hb hmem
      rcases Finset.mem_insert.mp hmem with heq | hin
      · exact hnodup.1 (heq ▸ List.mem_map_of_mem hb)
      · exact hseen b (List.mem_cons_of_mem _ hb) hin

end

end Lib
