/-
# Lib.Loop -- loops that are left when a turn says so

A turn takes a state to the next one, or says that the loop is left. A loop that stops has one number of
turns and one last state (`Stops.unique`), what its turns keep holds in that state (`Stops.invariant`), and
a loop whose turns use something up does stop (`exists_stops`).

A turn is a function to an `Option`. The loop itself is a relation, so that it can be spoken of before it is
known to stop; that it has at most one result is a theorem and not a part of the definition. A program that
is written with fuel is shown to follow the relation with as much fuel as there are turns, and
`exists_stops` says that so much fuel exists.
-/
import Mathlib.Tactic.Common

namespace Lib.Loop

variable {σ : Type*}

/-- From the first state, the loop is left after that many turns in the last one. -/
inductive Stops (turn : σ → Option σ) : σ → Nat → σ → Prop
  | left {s : σ} : turn s = none → Stops turn s 0 s
  | next {s t u : σ} {n : Nat} : turn s = some t → Stops turn t n u → Stops turn s (n + 1) u

variable {turn : σ → Option σ}

theorem Stops.unique {s t u : σ} {n m : Nat} (h : Stops turn s n t) (h' : Stops turn s m u) :
    n = m ∧ t = u := by
  induction h generalizing m with
  | left hnone =>
      cases h' with
      | left _ => exact ⟨rfl, rfl⟩
      | next hsome _ => rw [hnone] at hsome; cases hsome
  | next hsome _ ih =>
      cases h' with
      | left hnone => rw [hnone] at hsome; cases hsome
      | next hsome' hrest =>
          rw [hsome] at hsome'
          cases hsome'
          obtain ⟨rfl, rfl⟩ := ih hrest
          exact ⟨rfl, rfl⟩

theorem Stops.last {s t : σ} {n : Nat} (h : Stops turn s n t) : turn t = none := by
  induction h with
  | left hnone => exact hnone
  | next _ _ ih => exact ih

/-- The rule of the loop: what a turn takes from one count to the next holds of the last count. -/
theorem Stops.invariant {I : Nat → σ → Prop}
    (hturn : ∀ i s t, I i s → turn s = some t → I (i + 1) t) {s t : σ} {n : Nat}
    (h : Stops turn s n t) : ∀ i, I i s → I (i + n) t := by
  induction h with
  | left _ => exact fun i hi => hi
  | @next s t u n hsome _ ih =>
      intro i hi
      have hlast := ih (i + 1) (hturn i s t hi hsome)
      rwa [Nat.add_right_comm] at hlast

/-- A loop whose turns lower a measure stops. -/
theorem exists_stops (μ : σ → Nat) (hturn : ∀ s t, turn s = some t → μ t < μ s) (s : σ) :
    ∃ n t, Stops turn s n t := by
  induction hm : μ s using Nat.strongRecOn generalizing s with
  | ind m ih =>
      cases hs : turn s with
      | none => exact ⟨0, s, .left hs⟩
      | some t =>
          obtain ⟨n, u, hrest⟩ := ih (μ t) (hm ▸ hturn s t hs) t rfl
          exact ⟨n + 1, u, .next hs hrest⟩

end Lib.Loop
