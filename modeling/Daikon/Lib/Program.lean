/-
# Lib.Program -- programs that make calls

A program ends with a result, or makes a call and goes on with the answer. Over a machine that answers
calls it runs to its end, and leaves a trace of the calls it made. What the machine is after a run is
decided by the calls of the trace alone (`run_snd`); and two machines that answer these calls alike cannot
be told apart by the program (`run_sim`).

A program is a tree: a node is a call with a continuation for each answer. So it is any interaction that
comes to an end on every path, with no language behind it, and it may use its answers in whatever way it
likes. Both rules are proved by induction over the tree.

`run_sim` is the rule of simulation. It asks that the two machines answer alike only the calls that the
program makes in this run, and not all calls, since what a program asks may depend on what it was told.
-/
import Mathlib.Data.List.Basic

namespace Lib

/-- A program with calls `Q`, answers `A` and results `α`. -/
inductive Program (Q A α : Type*) where
  | done (result : α)
  | call (query : Q) (next : A → Program Q A α)

namespace Program

variable {Q A α σ τ : Type*}

/-- Run a program on a machine. -/
def run (h : σ → Q → A × σ) : Program Q A α → σ → α × σ
  | done result, s => (result, s)
  | call query next, s => run h (next (h s query).1) (h s query).2

/-- The calls that a run makes. -/
def trace (h : σ → Q → A × σ) : Program Q A α → σ → List Q
  | done _, _ => []
  | call query next, s => query :: trace h (next (h s query).1) (h s query).2

/-- The machine after the run is the machine after the calls. -/
theorem run_snd (h : σ → Q → A × σ) (p : Program Q A α) :
    ∀ s, (run h p s).2 = (trace h p s).foldl (fun s query => (h s query).2) s := by
  induction p with
  | done result => exact fun s => rfl
  | call query next ih => exact fun s => ih (h s query).1 (h s query).2

/-- Machines that answer the calls of a run alike, and go on so: the program has the same result on both,
and makes the same calls. -/
theorem run_sim {h : σ → Q → A × σ} {g : τ → Q → A × τ} {P : Q → Prop} {R : σ → τ → Prop}
    (hcall : ∀ s t query, R s t → P query →
      (h s query).1 = (g t query).1 ∧ R (h s query).2 (g t query).2) (p : Program Q A α) :
    ∀ {s t}, R s t → (∀ query ∈ trace h p s, P query) →
      (run h p s).1 = (run g p t).1 ∧ R (run h p s).2 (run g p t).2 ∧ trace h p s = trace g p t := by
  induction p with
  | done result => exact fun hR _ => ⟨rfl, hR, rfl⟩
  | call query next ih =>
      intro s t hR hP
      obtain ⟨hanswer, hstep⟩ := hcall s t query hR (hP query (by simp [trace]))
      obtain ⟨hresult, hfinal, htrace⟩ := ih (h s query).1 hstep
        fun query' hquery' => hP query' (by simp [trace, hquery'])
      rw [hanswer] at hresult hfinal htrace
      refine ⟨?_, ?_, ?_⟩
      · rw [run, run, hanswer]
        exact hresult
      · rw [run, run, hanswer]
        exact hfinal
      · rw [trace, trace, hanswer, htrace]

end Program

end Lib
