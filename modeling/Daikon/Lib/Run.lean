/-
# Lib.Run -- runs of a step function, and what is asked of every step

A system is a step function `σ → α → σ`: all of its nondeterminism (clocks, failures, the order
of clients) sits in the actions `α`. A run is a list of actions. Two questions are asked of it:
whether a predicate holds of every state it visits (`Always`), and whether every action is taken
in a state that allows it (`Guarded`). The rules below reduce both to one step.

`Guarded` and `Always` are defined by recursion on the list of actions, and so a run can be taken apart with
`guarded_cons` and cut in two with `guarded_append`. Of the rules, `Guarded.always` is the usual invariant
rule. The two exact-guard rules go further: they say that the guard is not only enough but decides, which
needs a step that breaks the guard to break the property at once, and not some steps later.

An action may carry a condition of its own that does not look at the state; `Guarded.and_forall` joins it to
a guard, so that hypotheses on actions and on states can be handed to the invariant rule together.
-/
import Mathlib.Data.List.Basic

namespace Lib.Run

variable {σ α : Type*} {step : σ → α → σ}

/-- Every action of the run is taken in a state that meets `C`. -/
def Guarded (step : σ → α → σ) (C : σ → α → Prop) : σ → List α → Prop
  | _, [] => True
  | s, a :: as => C s a ∧ Guarded step C (step s a) as

/-- `P` holds of every state the run visits, the first one included. -/
def Always (step : σ → α → σ) (P : σ → Prop) : σ → List α → Prop
  | s, [] => P s
  | s, a :: as => P s ∧ Always step P (step s a) as

@[simp] theorem guarded_nil {C : σ → α → Prop} {s : σ} : Guarded step C s [] := trivial

@[simp] theorem guarded_cons {C : σ → α → Prop} {s : σ} {a : α} {as : List α} :
    Guarded step C s (a :: as) ↔ C s a ∧ Guarded step C (step s a) as := Iff.rfl

@[simp] theorem always_nil {P : σ → Prop} {s : σ} : Always step P s [] ↔ P s := Iff.rfl

@[simp] theorem always_cons {P : σ → Prop} {s : σ} {a : α} {as : List α} :
    Always step P s (a :: as) ↔ P s ∧ Always step P (step s a) as := Iff.rfl

theorem Always.head {P : σ → Prop} {s : σ} {as : List α} (h : Always step P s as) : P s := by
  cases as with
  | nil => exact h
  | cons a as => exact h.1

theorem Always.last {P : σ → Prop} {as : List α} :
    ∀ {s : σ}, Always step P s as → P (as.foldl step s) := by
  induction as with
  | nil => intro s h; exact h
  | cons a as ih => intro s h; exact ih h.2

/-- The invariant rule: an invariant kept by every allowed step holds throughout an allowed run. -/
theorem Guarded.always {C : σ → α → Prop} {Inv : σ → Prop}
    (hstep : ∀ s a, Inv s → C s a → Inv (step s a)) {as : List α} :
    ∀ {s : σ}, Inv s → Guarded step C s as → Always step Inv s as := by
  induction as with
  | nil => intro s hs _; exact hs
  | cons a as ih => intro s hs h; exact ⟨hs, ih (hstep s a hs h.1) h.2⟩

/-- The invariant at the end of an allowed run. -/
theorem Guarded.foldl {C : σ → α → Prop} {Inv : σ → Prop}
    (hstep : ∀ s a, Inv s → C s a → Inv (step s a)) {as : List α} {s : σ} (hs : Inv s)
    (h : Guarded step C s as) : Inv (as.foldl step s) :=
  (h.always hstep hs).last

/-- What the invariant and the guard give at one step, they give at every step. -/
theorem Guarded.imp {C D : σ → α → Prop} {Inv : σ → Prop}
    (hstep : ∀ s a, Inv s → C s a → Inv (step s a)) (hD : ∀ s a, Inv s → C s a → D s a)
    {as : List α} : ∀ {s : σ}, Inv s → Guarded step C s as → Guarded step D s as := by
  induction as with
  | nil => intro s _ _; trivial
  | cons a as ih => intro s hs h; exact ⟨hD s a hs h.1, ih (hstep s a hs h.1) h.2⟩

theorem guarded_congr {C D : σ → α → Prop} (h : ∀ s a, C s a ↔ D s a) {as : List α} :
    ∀ {s : σ}, Guarded step C s as ↔ Guarded step D s as := by
  induction as with
  | nil => intro s; exact Iff.rfl
  | cons a as ih => intro s; exact and_congr (h s a) ih

theorem Guarded.and {C D : σ → α → Prop} {as : List α} :
    ∀ {s : σ}, Guarded step C s as → Guarded step D s as →
      Guarded step (fun s a => C s a ∧ D s a) s as := by
  induction as with
  | nil => intro s _ _; trivial
  | cons a as ih => intro s hC hD; exact ⟨⟨hC.1, hD.1⟩, ih hC.2 hD.2⟩

/-- A condition on the actions alone joins the guard. -/
theorem Guarded.and_forall {C : σ → α → Prop} {D : α → Prop} {as : List α} :
    ∀ {s : σ}, Guarded step C s as → (∀ a ∈ as, D a) → Guarded step (fun s a => C s a ∧ D a) s as := by
  induction as with
  | nil => intro s _ _; trivial
  | cons a as ih =>
      intro s h hD
      exact ⟨⟨h.1, hD a (by simp)⟩, ih h.2 fun b hb => hD b (List.mem_cons_of_mem _ hb)⟩

theorem Always.mono {P Q : σ → Prop} (hPQ : ∀ s, P s → Q s) {as : List α} :
    ∀ {s : σ}, Always step P s as → Always step Q s as := by
  induction as with
  | nil => intro s h; exact hPQ s h
  | cons a as ih => intro s h; exact ⟨hPQ s h.1, ih h.2⟩

/-- The exact-guard rule, for runs that meet an assumption `A`: if the guard keeps an invariant
that implies `P`, and a step that breaks the guard breaks `P` at once, then `P` holds in every
state exactly on the guarded runs. -/
theorem always_iff_guarded {A C : σ → α → Prop} {Inv P : σ → Prop}
    (hstep : ∀ s a, Inv s → A s a → C s a → Inv (step s a)) (hP : ∀ s, Inv s → P s)
    (hbad : ∀ s a, Inv s → A s a → ¬ C s a → ¬ P (step s a)) {as : List α} :
    ∀ {s : σ}, Inv s → Guarded step A s as → (Always step P s as ↔ Guarded step C s as) := by
  induction as with
  | nil => intro s hs _; exact ⟨fun _ => trivial, fun _ => hP s hs⟩
  | cons a as ih =>
      intro s hs hA
      constructor
      · rintro ⟨_, hrest⟩
        have hC : C s a := by
          by_contra hn
          exact hbad s a hs hA.1 hn hrest.head
        exact ⟨hC, (ih (hstep s a hs hA.1 hC) hA.2).mp hrest⟩
      · rintro ⟨hC, hrest⟩
        exact ⟨hP s hs, (ih (hstep s a hs hA.1 hC) hA.2).mpr hrest⟩

/-- A run may be cut in two. -/
theorem guarded_append {C : σ → α → Prop} {as bs : List α} : ∀ {s : σ},
    Guarded step C s (as ++ bs) ↔ Guarded step C s as ∧ Guarded step C (as.foldl step s) bs := by
  induction as with
  | nil => intro s; exact (iff_of_eq (true_and _)).symm
  | cons a as ih => intro s; exact (and_congr_right fun _ => ih).trans and_assoc.symm

theorem guarded_true {as : List α} : ∀ {s : σ}, Guarded step (fun _ _ => True) s as := by
  induction as with
  | nil => intro s; trivial
  | cons a as ih => intro s; exact ⟨trivial, ih⟩

/-- The exact-guard rule for all runs: from an invariant state, the guard decides whether a step keeps
the invariant, and a step that breaks the guard breaks `P` at once. -/
theorem always_iff_guarded_of_step {C : σ → α → Prop} {I P : σ → Prop}
    (hstep : ∀ s a, I s → C s a → I (step s a)) (hP : ∀ s, I s → P s)
    (hbad : ∀ s a, I s → ¬ C s a → ¬ P (step s a)) {as : List α} {s : σ} (hs : I s) :
    Always step P s as ↔ Guarded step C s as :=
  always_iff_guarded (fun s a hI _ => hstep s a hI) hP (fun s a hI _ => hbad s a hI) hs guarded_true

/-- An invariant of every step holds at the end of every run. -/
theorem foldl_of_step (Inv : σ → Prop) (hstep : ∀ s a, Inv s → Inv (step s a)) {s : σ} (hs : Inv s)
    (as : List α) : Inv (as.foldl step s) :=
  guarded_true.foldl (fun s a hs _ => hstep s a hs) hs

end Lib.Run
