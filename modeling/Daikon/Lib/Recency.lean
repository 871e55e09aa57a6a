/-
# Lib.Recency -- a list in the order of last use

A history lists the uses of keys, the latest last. Of two keys, the more recent is the one that some end
of the history has alone (`MoreRecent`). A list that every use moves its key to the end of is in the order
of last use (`Ordered.touch`), and stays so under a use that it does not see only if that use changes
nothing in the order (`Ordered.use`), as a second use of the latest key does not (`unchanged_of_latest`).

The history is longer than the list: a key may have been used and dropped from the list since, and the list
may not see every use. The order asked for is only about the keys that are both in the list and among those
that count, which is given as a predicate, so that keys whose place is not to be trusted can be left out.
-/
import Mathlib.Data.List.Basic

namespace Lib.Recency

variable {K : Type*} {P Q : K → Prop} {h us l l' : List K} {a b k : K}

/-- Some end of the history has a use of `b` and none of `a`. -/
def MoreRecent (h : List K) (b a : K) : Prop := ∃ pre post, h = pre ++ post ∧ b ∈ post ∧ a ∉ post

/-- Of the keys that count, each one in the list was used more recently than those before it. -/
def Ordered (P : K → Prop) (h l : List K) : Prop :=
  l.Pairwise fun a b => P a → P b → MoreRecent h b a

/-! ## The more recent of two keys -/

theorem moreRecent_iff : MoreRecent h b a ↔ ∃ i ≤ h.length, b ∈ h.drop i ∧ a ∉ h.drop i := by
  constructor
  · rintro ⟨pre, post, rfl, hb, ha⟩
    refine ⟨pre.length, by simp, ?_⟩
    rw [List.drop_left]
    exact ⟨hb, ha⟩
  · rintro ⟨i, -, hb, ha⟩
    exact ⟨h.take i, h.drop i, (List.take_append_drop i h).symm, hb, ha⟩

instance [DecidableEq K] : Decidable (MoreRecent h b a) :=
  decidable_of_iff (∃ i, i < h.length + 1 ∧ b ∈ h.drop i ∧ a ∉ h.drop i) (by
    rw [moreRecent_iff]
    simp only [Nat.lt_succ_iff])

theorem MoreRecent.append (hab : MoreRecent h b a) (ha : a ∉ us) : MoreRecent (h ++ us) b a := by
  obtain ⟨pre, post, rfl, hb, hpost⟩ := hab
  refine ⟨pre, post ++ us, List.append_assoc _ _ _, List.mem_append_left _ hb, ?_⟩
  rw [List.mem_append]
  exact not_or.mpr ⟨hpost, ha⟩

theorem moreRecent_last (ha : a ≠ k) : MoreRecent (h ++ [k]) k a :=
  ⟨h, [k], rfl, List.mem_singleton_self k, fun hin => ha (List.mem_singleton.mp hin)⟩

theorem MoreRecent.asymm (hab : MoreRecent h b a) : ¬ MoreRecent h a b := by
  obtain ⟨i, -, hb, ha⟩ := moreRecent_iff.mp hab
  intro hba
  obtain ⟨j, -, ha', hb'⟩ := moreRecent_iff.mp hba
  -- the shorter of the two ends is part of the longer one
  rcases Nat.le_total i j with hij | hij
  · exact ha ((List.drop_sublist_drop_left h hij).subset ha')
  · exact hb' ((List.drop_sublist_drop_left h hij).subset hb)

/-- One more use of the key that was used last changes nothing in the order. -/
theorem unchanged_of_latest (hlatest : ∀ c, P c → c ≠ k → MoreRecent h k c) (hb : P b)
    (hab : MoreRecent h b a) : MoreRecent (h ++ [k]) b a := by
  by_cases ha : a = k
  · subst ha
    have hne : b ≠ a := fun heq => hab.asymm (heq ▸ hab)
    exact absurd (hlatest b hb hne) hab.asymm
  · exact hab.append fun hin => ha (List.mem_singleton.mp hin)

/-! ## The list -/

theorem Ordered.mono (hl : Ordered P h l) (hPQ : ∀ c, Q c → P c) : Ordered Q h l :=
  List.Pairwise.imp (fun hab ha hb => hab (hPQ _ ha) (hPQ _ hb)) hl

theorem Ordered.sublist (hl : Ordered P h l) (hsub : l'.Sublist l) : Ordered P h l' :=
  List.Pairwise.sublist hsub hl

/-- Uses that the list does not see. -/
theorem Ordered.use (hl : Ordered P h l)
    (hsame : ∀ a b, P a → P b → MoreRecent h b a → MoreRecent (h ++ us) b a) :
    Ordered P (h ++ us) l :=
  List.Pairwise.imp (fun hab ha hb => hsame _ _ ha hb (hab ha hb)) hl

/-- A use that moves its key to the end. -/
theorem Ordered.touch [DecidableEq K] (hl : Ordered P h l) (hPQ : ∀ c, c ≠ k → Q c → P c) :
    Ordered Q (h ++ [k]) (l.filter (· ≠ k) ++ [k]) := by
  have hother : ∀ {c}, c ∈ l.filter (· ≠ k) → c ≠ k := fun hc => by simpa using (List.mem_filter.mp hc).2
  refine List.pairwise_append.mpr ⟨?_, List.pairwise_singleton _ _, fun a ha b hb _ _ => ?_⟩
  · have hfilter : Ordered P h (l.filter (· ≠ k)) := hl.sublist List.filter_sublist
    refine List.Pairwise.imp_of_mem (fun {a b} ha hb hab hQa hQb => ?_) hfilter
    have hrecent := hab (hPQ a (hother ha) hQa) (hPQ b (hother hb) hQb)
    exact hrecent.append fun hin => hother ha (List.mem_singleton.mp hin)
  · rw [List.mem_singleton.mp hb]
    exact moreRecent_last (hother ha)

/-- A key behind another in the list. -/
theorem Ordered.behind (hl : Ordered P h (l ++ l')) (ha : a ∈ l) (hb : b ∈ l') (hPa : P a) (hPb : P b) :
    MoreRecent h b a :=
  (List.pairwise_append.mp hl).2.2 a ha b hb hPa hPb

end Lib.Recency
