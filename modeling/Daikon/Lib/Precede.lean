/-
# Lib.Precede -- lists that agree on an order

Several lists are filled from one log, each with repetitions and gaps of its own. If each has its members in
the order of one rank, then any two of them agree on the order of any two members that both have
(`Ranked.agree`).

A rank is a function to a linear order that need not be injective: members of one rank are not ordered by
it, and the statement says nothing about them. Where a log is appended to, the position in the log is such a
rank, and a list that is filled at the end, each time with the member that was logged last, is in its order
(`Ranked.concat`).
-/
import Mathlib.Order.Lattice
import Mathlib.Data.List.Basic

namespace Lib.Precede

variable {α β : Type*} [LinearOrder β]

/-- There is an `m` before an `n`, and no `n` before an `m`. -/
def AllBefore (xs : List α) (m n : α) : Prop := [m, n].Sublist xs ∧ ¬ [n, m].Sublist xs

/-- The members stand in the order of their rank. -/
def Ranked (rank : α → β) (xs : List α) : Prop := xs.Pairwise fun a b => rank a ≤ rank b

theorem Ranked.sublist {rank : α → β} {xs ys : List α} (h : Ranked rank ys) (hsub : xs.Sublist ys) :
    Ranked rank xs :=
  List.Pairwise.sublist hsub h

theorem Ranked.congr {rank rank' : α → β} {xs : List α} (h : Ranked rank xs)
    (hrank : ∀ a ∈ xs, rank' a = rank a) : Ranked rank' xs := by
  refine List.Pairwise.imp_of_mem (fun {a b} ha hb hab => ?_) h
  rw [hrank a ha, hrank b hb]
  exact hab

/-- A member of the highest rank goes to the end. -/
theorem Ranked.concat {rank : α → β} {xs : List α} {n : α} (h : Ranked rank xs)
    (hlast : ∀ a ∈ xs, rank a ≤ rank n) : Ranked rank (xs ++ [n]) := by
  refine List.pairwise_append.mpr ⟨h, List.pairwise_singleton _ _, fun a ha b hb => ?_⟩
  rw [List.mem_singleton.mp hb]
  exact hlast a ha

/-- Of two members, one stands before the other. -/
theorem sublist_pair_or {xs : List α} {m n : α} (hne : m ≠ n) (hm : m ∈ xs) (hn : n ∈ xs) :
    [m, n].Sublist xs ∨ [n, m].Sublist xs := by
  obtain ⟨pre, post, rfl⟩ := List.append_of_mem hm
  rcases List.mem_append.mp hn with hpre | hpost
  · exact .inr (List.Sublist.append (List.singleton_sublist.mpr hpre)
      (List.singleton_sublist.mpr List.mem_cons_self))
  · have htail : n ∈ post := (List.mem_cons.mp hpost).resolve_left (Ne.symm hne)
    exact .inl ((List.Sublist.cons_cons m (List.singleton_sublist.mpr htail)).trans
      (List.sublist_append_right pre _))

theorem Ranked.allBefore {rank : α → β} {xs : List α} {m n : α} (h : Ranked rank xs)
    (hlt : rank m < rank n) (hm : m ∈ xs) (hn : n ∈ xs) : AllBefore xs m n := by
  have hnot : ¬ [n, m].Sublist xs := by
    intro hsub
    have hle : rank n ≤ rank m :=
      (List.pairwise_cons.mp (h.sublist hsub)).1 m (List.mem_singleton.mpr rfl)
    exact absurd hlt (not_lt.mpr hle)
  have hne : m ≠ n := by
    rintro rfl
    exact lt_irrefl _ hlt
  exact ⟨(sublist_pair_or hne hm hn).resolve_right hnot, hnot⟩

/-- Two lists in the order of one rank agree on the order of what they share. -/
theorem Ranked.agree {rank : α → β} {xs ys : List α} {m n : α} (hxs : Ranked rank xs)
    (hys : Ranked rank ys) (hne : rank m ≠ rank n) (hm : m ∈ xs ∧ m ∈ ys) (hn : n ∈ xs ∧ n ∈ ys) :
    (AllBefore xs m n ∧ AllBefore ys m n) ∨ (AllBefore xs n m ∧ AllBefore ys n m) := by
  rcases lt_or_gt_of_ne hne with hlt | hgt
  · exact .inl ⟨hxs.allBefore hlt hm.1 hn.1, hys.allBefore hlt hm.2 hn.2⟩
  · exact .inr ⟨hxs.allBefore hgt hn.1 hm.1, hys.allBefore hgt hn.2 hm.2⟩

end Lib.Precede
