/-
# Lib.Unwinding -- answers that do not depend on the actions of others

A machine takes actions and answers each. Some of the actions are those of an observer. If a relation
between states is kept by an observer's action on both sides, with the same answer, and by the action of
anybody else on one side alone, then the observer is given the answers that it would have been given
without the others (`Unwinds.purge`). It follows that the answers are the same however its actions and
theirs are interleaved, since the run without the others is the same for all interleavings.

The conditions on the actions (`C`) are asked of the run with all of them only: nothing is asked of the run
of the observer alone, in which states come up that the whole run never has. This is why the relation is
between a state of the one and a state of the other, and not between two states of one run.
-/
import Daikon.Lib.Run

namespace Lib.Unwinding

open Lib.Run (Guarded)

variable {σ α β : Type} (step : σ → α → β × σ) (own : α → Bool)

/-- The state after an action. -/
def next (s : σ) (a : α) : σ := (step s a).2

/-- The answers to the observer's actions. -/
def answers : σ → List α → List β
  | _, [] => []
  | s, a :: as =>
      if own a then (step s a).1 :: answers (next step s a) as else answers (next step s a) as

/-- The relation is kept where the conditions on the actions hold, and tells the observer nothing. -/
structure Unwinds (C : σ → α → Prop) (R : σ → σ → Prop) : Prop where
  mine : ∀ s t a, C s a → own a → R s t →
    (step s a).1 = (step t a).1 ∧ R (next step s a) (next step t a)
  others : ∀ s t a, C s a → ¬ own a → R s t → R (next step s a) t

variable {step own} {C : σ → α → Prop} {R : σ → σ → Prop}

/-- The actions of the others can be left out. -/
theorem Unwinds.purge (h : Unwinds step own C R) {as : List α} : ∀ {s t : σ}, R s t →
    Guarded (next step) C s as →
    answers step own s as = answers step own t (as.filter own) ∧
      R (as.foldl (next step) s) ((as.filter own).foldl (next step) t) := by
  induction as with
  | nil => exact fun hR _ => ⟨rfl, hR⟩
  | cons a as ih =>
      rintro s t hR ⟨ha, hrest⟩
      by_cases hown : own a
      · obtain ⟨hanswer, hstep⟩ := h.mine s t a ha hown hR
        obtain ⟨hanswers, hfinal⟩ := ih hstep hrest
        rw [List.filter_cons_of_pos hown, answers, if_pos hown, answers, if_pos hown, hanswer, hanswers]
        exact ⟨rfl, hfinal⟩
      · rw [List.filter_cons_of_neg hown, answers, if_neg hown]
        exact ih (h.others s t a ha hown hR) hrest

end Lib.Unwinding
