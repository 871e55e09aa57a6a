/-
# Lib.Lines -- a list cut at a separator

`splitLines sep l` is the list of the lines of `l`, each ended by a separator, and the rest after the
last one. What is appended to `l` continues that rest (`splitLines_append`): whoever appends whole
lines must start where the rest is empty.

The separator is an element of any type with decidable equality. The rest behind the last separator is part
of the answer and not thrown away, for it decides what becomes of the next line: where it is empty the next
line stands by itself, and where it is not the two become one line, which neither of them was.
-/
import Mathlib.Data.List.Basic

namespace Lib

variable {α : Type*} [DecidableEq α]

/-- The ended lines, without their separators, and what follows the last of them. -/
def splitLines (sep : α) : List α → List (List α) × List α
  | [] => ([], [])
  | a :: l =>
      if a = sep then ([] :: (splitLines sep l).1, (splitLines sep l).2)
      else
        match (splitLines sep l).1 with
        | [] => ([], a :: (splitLines sep l).2)
        | line :: lines => ((a :: line) :: lines, (splitLines sep l).2)

section

variable {sep : α}

@[simp] theorem splitLines_nil : splitLines sep ([] : List α) = ([], []) := rfl

theorem splitLines_cons_sep (l : List α) :
    splitLines sep (sep :: l) = ([] :: (splitLines sep l).1, (splitLines sep l).2) := by
  rw [splitLines, if_pos rfl]

/-- Without a separator there is only the rest. -/
theorem splitLines_of_notMem {l : List α} (h : sep ∉ l) : splitLines sep l = ([], l) := by
  induction l with
  | nil => rfl
  | cons a l ih =>
      have ha : a ≠ sep := fun heq => h (heq ▸ List.mem_cons_self)
      rw [splitLines, if_neg ha, ih fun hl => h (List.mem_cons_of_mem _ hl)]

/-- No line but the rest has ended: it is the whole list. -/
theorem splitLines_rest {l : List α} (h : (splitLines sep l).1 = []) : (splitLines sep l).2 = l := by
  induction l with
  | nil => rfl
  | cons a l ih =>
      by_cases ha : a = sep
      · rw [splitLines, if_pos ha] at h
        cases h
      · rw [splitLines, if_neg ha] at h ⊢
        rcases hl : (splitLines sep l).1 with _ | ⟨line, lines⟩
        · rw [hl] at h
          simp only [ih hl]
        · rw [hl] at h
          cases h

/-- What comes after continues the rest. -/
theorem splitLines_append (x y : List α) :
    splitLines sep (x ++ y)
      = ((splitLines sep x).1 ++ (splitLines sep ((splitLines sep x).2 ++ y)).1,
        (splitLines sep ((splitLines sep x).2 ++ y)).2) := by
  induction x with
  | nil => rfl
  | cons a x ih =>
      by_cases ha : a = sep
      · subst ha
        rw [List.cons_append, splitLines_cons_sep, splitLines_cons_sep, ih]
        rfl
      · rcases hx : (splitLines sep x).1 with _ | ⟨line, lines⟩
        · have hwhole : splitLines sep (a :: x) = ([], a :: x) := by
            rw [splitLines, if_neg ha, hx, splitLines_rest hx]
          rw [hwhole]
          rfl
        · have hcons : splitLines sep (a :: x) = ((a :: line) :: lines, (splitLines sep x).2) := by
            rw [splitLines, if_neg ha, hx]
          rw [hcons, List.cons_append, splitLines, if_neg ha, ih, hx]
          rfl

theorem notMem_rest (l : List α) : sep ∉ (splitLines sep l).2 := by
  induction l with
  | nil => exact List.not_mem_nil
  | cons a l ih =>
      rw [splitLines]
      by_cases ha : a = sep
      · rw [if_pos ha]
        exact ih
      · rw [if_neg ha]
        cases hl : (splitLines sep l).1 with
        | nil =>
            intro hmem
            rcases List.mem_cons.mp hmem with heq | hmem
            · exact ha heq.symm
            · exact ih hmem
        | cons line lines => exact ih

/-- Where no separator is appended the rest grows. -/
theorem splitLines_append_of_notMem (l : List α) {x : List α} (hx : sep ∉ x) :
    splitLines sep (l ++ x) = ((splitLines sep l).1, (splitLines sep l).2 ++ x) := by
  have hfree : sep ∉ (splitLines sep l).2 ++ x := fun hmem =>
    (List.mem_append.mp hmem).elim (notMem_rest l) hx
  rw [splitLines_append, splitLines_of_notMem hfree, List.append_nil]

/-- A separator ends the rest. -/
theorem splitLines_concat (l : List α) :
    splitLines sep (l ++ [sep]) = ((splitLines sep l).1 ++ [(splitLines sep l).2], []) := by
  have hrest : ∀ r : List α, sep ∉ r → splitLines sep (r ++ [sep]) = ([r], []) := by
    intro r
    induction r with
    | nil => intro _; rw [List.nil_append, splitLines_cons_sep]; rfl
    | cons a r ih =>
        intro h
        have ha : a ≠ sep := fun heq => h (heq ▸ List.mem_cons_self)
        rw [List.cons_append, splitLines, if_neg ha, ih fun hr => h (List.mem_cons_of_mem _ hr)]
  rw [splitLines_append, hrest _ (notMem_rest l)]

end

end Lib
