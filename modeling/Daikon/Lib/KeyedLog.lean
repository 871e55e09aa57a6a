/-
# Lib.KeyedLog -- logs of updates that each touch one key

A store is a function from keys to cells. An update names one key, rewrites the cell at that key
and adds to a running total; nothing else is read or written. A log is a list of updates. Two
facts carry everything built on such logs: a run is, at each key, the run of the updates of that
key (`run_apply`), and updates of different keys commute, with their costs (`run_comm`, `cost_comm`).

Cells are of any type, and the total is a number that may go up only, so that the room a log needs is known
before it is run. Of an update its key, its function on the cell and its cost are data; what an update does
in a program is shown to be one of these, and from then on order and room are questions about lists of
updates alone.

`run_comm` is stated for whole logs, and not for two updates, since that is how it is used: a block of
updates is moved past a block of others that share no key with it.
-/
import Mathlib.Logic.Function.Basic
import Mathlib.Data.List.Basic

namespace Lib

/-- One update: the key it names, the new cell from the old one, and what it adds to the total. -/
structure KeyUpdate (K V : Type*) where
  key : K
  eff : V → V
  cost : V → Nat

namespace KeyedLog

variable {K V : Type*} [DecidableEq K]

/-- The store after one update. -/
def apply (st : K → V) (u : KeyUpdate K V) : K → V :=
  Function.update st u.key (u.eff (st u.key))

/-- The store after a log. -/
def run (log : List (KeyUpdate K V)) (st : K → V) : K → V :=
  log.foldl apply st

/-- What a log adds to the total. -/
def cost : List (KeyUpdate K V) → (K → V) → Nat
  | [], _ => 0
  | u :: log, st => u.cost (st u.key) + cost log (apply st u)

@[simp] theorem run_nil (st : K → V) : run [] st = st := rfl

@[simp] theorem run_cons (u : KeyUpdate K V) (log : List (KeyUpdate K V)) (st : K → V) :
    run (u :: log) st = run log (apply st u) := rfl

@[simp] theorem cost_nil (st : K → V) : cost [] st = 0 := rfl

@[simp] theorem cost_cons (u : KeyUpdate K V) (log : List (KeyUpdate K V)) (st : K → V) :
    cost (u :: log) st = u.cost (st u.key) + cost log (apply st u) := rfl

theorem run_append (l₁ l₂ : List (KeyUpdate K V)) (st : K → V) :
    run (l₁ ++ l₂) st = run l₂ (run l₁ st) := by
  simp only [run, List.foldl_append]

theorem cost_append (l₁ : List (KeyUpdate K V)) :
    ∀ (l₂ : List (KeyUpdate K V)) (st : K → V), cost (l₁ ++ l₂) st = cost l₁ st + cost l₂ (run l₁ st) := by
  induction l₁ with
  | nil => intro l₂ st; simp
  | cons u l₁ ih => intro l₂ st; simp only [List.cons_append, cost_cons, run_cons, ih, Nat.add_assoc]

/-! ## One key at a time -/

/-- The cell at one key after a log is what the updates of that key make of it. -/
theorem run_apply (log : List (KeyUpdate K V)) (k : K) :
    ∀ st : K → V, run log st k
      = (log.filter (fun u => u.key = k)).foldl (fun v u => u.eff v) (st k) := by
  induction log with
  | nil => intro st; rfl
  | cons u log ih =>
      intro st
      rw [run_cons, ih]
      by_cases hk : u.key = k
      · subst hk
        simp [apply]
      · have hcell : apply st u k = st k := Function.update_of_ne (fun h => hk h.symm) _ _
        simp [hk, hcell]

/-! ## Updates of different keys commute -/

/-- Two logs that name no common key. -/
def Disjoint (l₁ l₂ : List (KeyUpdate K V)) : Prop :=
  ∀ u ∈ l₁, ∀ w ∈ l₂, u.key ≠ w.key

omit [DecidableEq K] in
theorem Disjoint.symm {l₁ l₂ : List (KeyUpdate K V)} (h : Disjoint l₁ l₂) : Disjoint l₂ l₁ :=
  fun u hu w hw heq => h w hw u hu heq.symm

theorem apply_comm {u w : KeyUpdate K V} (h : u.key ≠ w.key) (st : K → V) :
    apply (apply st u) w = apply (apply st w) u := by
  simp only [apply]
  rw [Function.update_of_ne (Ne.symm h), Function.update_of_ne h, Function.update_comm h]

theorem run_apply_comm {u : KeyUpdate K V} {l : List (KeyUpdate K V)}
    (h : ∀ w ∈ l, u.key ≠ w.key) : ∀ st : K → V, run l (apply st u) = apply (run l st) u := by
  induction l with
  | nil => intro st; rfl
  | cons w l ih =>
      intro st
      rw [run_cons, run_cons, apply_comm (h w (by simp)),
        ih (fun x hx => h x (List.mem_cons_of_mem _ hx))]

theorem run_comm {l₁ l₂ : List (KeyUpdate K V)} (h : Disjoint l₁ l₂) (st : K → V) :
    run (l₁ ++ l₂) st = run (l₂ ++ l₁) st := by
  rw [run_append, run_append]
  induction l₁ generalizing st with
  | nil => rfl
  | cons u l₁ ih =>
      rw [run_cons, run_cons, ih (fun x hx => h x (List.mem_cons_of_mem _ hx)),
        run_apply_comm (h u (by simp))]

/-- A log that never names the key leaves its cell alone. -/
theorem run_of_ne {l : List (KeyUpdate K V)} {k : K} (h : ∀ u ∈ l, u.key ≠ k) (st : K → V) :
    run l st k = st k := by
  rw [run_apply, List.filter_eq_nil_iff.mpr (by simpa using h)]
  rfl

/-- The cost of a log reads only the cells at its own keys. -/
theorem cost_congr {l : List (KeyUpdate K V)} :
    ∀ {st st' : K → V}, (∀ u ∈ l, st u.key = st' u.key) → cost l st = cost l st' := by
  induction l with
  | nil => intro st st' _; rfl
  | cons u l ih =>
      intro st st' h
      have hu : st u.key = st' u.key := h u (by simp)
      rw [cost_cons, cost_cons, hu]
      refine congrArg _ (ih fun w hw => ?_)
      by_cases hk : w.key = u.key
      · simp only [apply, hk, Function.update_self, hu]
      · simp only [apply, Function.update_of_ne hk]
        exact h w (List.mem_cons_of_mem _ hw)

theorem cost_comm {l₁ l₂ : List (KeyUpdate K V)} (h : Disjoint l₁ l₂) (st : K → V) :
    cost (l₁ ++ l₂) st = cost (l₂ ++ l₁) st := by
  have h₂ : cost l₂ (run l₁ st) = cost l₂ st :=
    cost_congr fun w hw => run_of_ne (fun u hu => h u hu w hw) st
  have h₁ : cost l₁ (run l₂ st) = cost l₁ st :=
    cost_congr fun u hu => run_of_ne (fun w hw => (h u hu w hw).symm) st
  rw [cost_append, cost_append, h₁, h₂, Nat.add_comm]

end KeyedLog

end Lib
