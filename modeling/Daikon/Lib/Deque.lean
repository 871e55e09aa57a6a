/-
# Lib.Deque -- double-ended sequences

A sequence that grows and shrinks at both ends, as a state machine with answers. What is popped from it
and what is left of it is what was pushed into it, each element as often (`run_perm`), so its length is the
number of the pushed elements less that of the popped ones (`run_length`).

The operations are those of a sequence that is used as a queue, a stack or both, with a pop of an empty
sequence answered and not refused. A push takes a list of values, for the order in which several values
arrive at the front is part of what is to be said: the last one comes first.

Nothing is said here about how the sequence is stored. A model of a store with many sequences instantiates
it at one key and shows that its calls answer as `step` does.
-/
import Mathlib.Data.List.Perm.Basic

namespace Lib.Deque

/-- The operations of a queue with two ends. -/
inductive Op (α : Type*) where
  /-- Put the values in front, one by one. -/
  | pushFront (values : List α)
  | pushBack (values : List α)
  | popFront
  | popBack
  | length
  | elements

/-- What an operation answers. -/
inductive Answer (α : Type*) where
  | count (n : Nat)
  | popped (a : Option α)
  | elements (l : List α)

variable {α : Type*}

/-- What an operation brings in. -/
def Op.pushed : Op α → List α
  | pushFront values | pushBack values => values
  | _ => []

/-- What an answer gives away. -/
def Answer.taken : Answer α → List α
  | popped a => a.toList
  | _ => []

/-- The answer of an operation, and the queue it leaves. -/
def step (l : List α) : Op α → Answer α × List α
  | .pushFront values => (.count (values.reverse ++ l).length, values.reverse ++ l)
  | .pushBack values => (.count (l ++ values).length, l ++ values)
  | .popFront => (.popped l.head?, l.tail)
  | .popBack => (.popped l.getLast?, l.dropLast)
  | .length => (.count l.length, l)
  | .elements => (.elements l, l)

/-- The answers of a list of operations, and the queue in the end. -/
def run (l : List α) : List (Op α) → List (Answer α) × List α
  | [] => ([], l)
  | op :: ops =>
      let rest := run (step l op).2 ops
      ((step l op).1 :: rest.1, rest.2)

/-- One operation takes nothing but what it answers, and adds nothing but what it is given. -/
theorem step_perm (l : List α) (op : Op α) :
    ((step l op).1.taken ++ (step l op).2).Perm (l ++ op.pushed) := by
  cases op with
  | pushFront values =>
      show (values.reverse ++ l).Perm (l ++ values)
      exact ((List.reverse_perm values).append_right l).trans List.perm_append_comm
  | pushBack values => exact .refl _
  | popFront => cases l <;> simp [step, Answer.taken, Op.pushed]
  | popBack =>
      rcases List.eq_nil_or_concat l with rfl | ⟨rest, a, rfl⟩
      · simp [step, Answer.taken, Op.pushed]
      · simpa [step, Answer.taken, Op.pushed] using (List.perm_append_singleton a rest).symm
  | length | elements => simp [step, Answer.taken, Op.pushed]

/-- What is popped and what is left is what was pushed. -/
theorem run_perm (ops : List (Op α)) : ∀ l : List α,
    ((run l ops).1.flatMap Answer.taken ++ (run l ops).2).Perm (l ++ ops.flatMap Op.pushed) := by
  induction ops with
  | nil => intro l; simp [run]
  | cons op ops ih =>
      intro l
      have hstep := step_perm l op
      have hrest := ih (step l op).2
      simp only [run, List.flatMap_cons, List.append_assoc]
      refine (hrest.append_left _).trans ?_
      rw [← List.append_assoc, ← List.append_assoc]
      exact hstep.append_right _

theorem run_length (l : List α) (ops : List (Op α)) :
    (run l ops).2.length + ((run l ops).1.flatMap Answer.taken).length
      = l.length + (ops.flatMap Op.pushed).length := by
  have hlength := (run_perm ops l).length_eq
  rw [List.length_append, List.length_append] at hlength
  omega

end Lib.Deque
