/-
# Lib.Overwrite -- functions that overwrite some coordinates and leave the others

A value is seen through coordinates. A function overwrites if every coordinate either gets a fixed
content or keeps the one it had. Such functions compose (`Overwrites.foldl`), and a list of them that
leaves a value alone still does so when one more has acted on both (`Overwrites.settled`): what was
written last is written last again.

The contents that are written are fixed: they do not depend on the value, and neither does the choice of the
coordinates. That is what makes a list of such functions idempotent without any two of them commuting. A
function that reads what it rewrites (one that adds, for instance) is not of this kind, and a list with one
such function in it is settled only at the coordinates that a later function overwrites.
-/
import Mathlib.Data.Set.Defs

namespace Lib

variable {V F A : Type*}

/-- On the values in `D`, the coordinates with a content in `o` get it and the others stay. -/
structure Overwrites (D : Set V) (view : V → F → A) (f : V → V) (o : F → Option A) : Prop where
  closed : ∀ x ∈ D, f x ∈ D
  view : ∀ x ∈ D, ∀ c, view (f x) c = (o c).getD (view x c)

namespace Overwrites

variable {D : Set V} {view : V → F → A}

/-- Nothing is overwritten. -/
theorem id : Overwrites D view (fun x => x) (fun _ => none) :=
  ⟨fun _ hx => hx, fun _ _ _ => rfl⟩

/-- First `f`, then `g`: what `g` writes stands, and elsewhere what `f` writes. -/
theorem comp {f g : V → V} {o p : F → Option A} (hf : Overwrites D view f o)
    (hg : Overwrites D view g p) : Overwrites D view (fun x => g (f x)) (fun c => (p c).or (o c)) where
  closed x hx := hg.closed _ (hf.closed x hx)
  view x hx c := by
    rw [hg.view _ (hf.closed x hx), hf.view x hx]
    cases p c <;> rfl

theorem foldl (l : List (V → V)) :
    (∀ f ∈ l, ∃ o, Overwrites D view f o) →
      ∃ o, Overwrites D view (fun x => l.foldl (fun x f => f x) x) o := by
  induction l with
  | nil => intro _; exact ⟨_, id⟩
  | cons f l ih =>
      intro h
      obtain ⟨o, ho⟩ := h f (by simp)
      obtain ⟨p, hp⟩ := ih fun g hg => h g (List.mem_cons_of_mem _ hg)
      exact ⟨_, ho.comp hp⟩

/-- If `run` leaves `x` alone, then `run` followed by `f` leaves `f x` alone. -/
theorem settled (hinj : ∀ x ∈ D, ∀ y ∈ D, (∀ c, view x c = view y c) → x = y) {f run : V → V}
    {o p : F → Option A} (hf : Overwrites D view f o) (hrun : Overwrites D view run p) {x : V}
    (hx : x ∈ D) (hsettled : run x = x) : f (run (f x)) = f x := by
  have hfx := hf.closed x hx
  have hrfx := hrun.closed _ hfx
  refine hinj _ (hf.closed _ hrfx) _ hfx fun c => ?_
  rw [hf.view _ hrfx, hrun.view _ hfx, hf.view x hx]
  cases ho : o c with
  | some a => rfl
  | none =>
      -- the coordinate is not written by `f`, so `run` does there what it does to `x`
      have hsame := hrun.view x hx c
      rw [hsettled] at hsame
      exact hsame.symm

end Overwrites

end Lib
