/-
# Lib.BoundedFifo -- a queue that drops its oldest element when it is full

Elements come in at the end and leave at the front, polled or dropped. The histories of what came in and of
what left tell the queue: it is what has come in and not left, in order (`Sound.suffix`). So the polled
elements are some of those that came in, each once and in order, and an element is dropped at the front of a
full queue only (`run_sound`).

The queue itself is a list. What makes it possible to speak of loss are the three histories beside it, which
no operation reads: what came in, what left (with the mark of how it left), and what each drop found. The
invariant `Sound` relates them, and every statement about a run is read off it; none needs a second
induction over the events.

The bound has to be positive. A push makes room only in a queue that has an element to drop, so an empty
queue takes one whatever the bound is.
-/
import Mathlib.Data.List.Basic
import Mathlib.Data.List.Perm.Basic

namespace Lib.BoundedFifo

variable {α : Type*}

/-- What happens to a queue. -/
inductive Event (α : Type*) where
  | push (a : α)
  /-- Take up to so many elements. -/
  | poll (limit : Nat)

/-- An element that was dropped, and the queue it was dropped from. -/
structure Drop (α : Type*) where
  element : α
  queue : List α

/-- A queue, the oldest element first, with its history. -/
structure Fifo (α : Type*) where
  queue : List α := []
  /-- What came in. -/
  pushed : List α := []
  /-- What left, and whether it was polled. -/
  left : List (α × Bool) := []
  drops : List (Drop α) := []

namespace Fifo

/-- What the polls returned, one after the other. -/
def polled (f : Fifo α) : List α := (f.left.filter (·.2)).map Prod.fst

/-- The elements that left to make room, in their order. -/
def dropped (f : Fifo α) : List α := (f.left.filter (!·.2)).map Prod.fst

/-- Put an element at the end, and take the oldest away if the queue is full. -/
def push (max : Nat) (a : α) (f : Fifo α) : Fifo α :=
  let pushed := f.pushed ++ [a]
  match f.queue with
  | [] => { f with queue := [a], pushed }
  | oldest :: rest =>
      if f.queue.length ≥ max then
        { queue := rest ++ [a], pushed, left := f.left ++ [(oldest, false)]
          drops := f.drops ++ [⟨oldest, f.queue⟩] }
      else { f with queue := f.queue ++ [a], pushed }

/-- Take the oldest elements, at most so many. -/
def poll (limit : Nat) (f : Fifo α) : Fifo α :=
  { f with
    queue := f.queue.drop limit
    left := f.left ++ (f.queue.take limit).map fun a => (a, true) }

/-- What an event does. -/
def step (max : Nat) (f : Fifo α) : Event α → Fifo α
  | .push a => f.push max a
  | .poll limit => f.poll limit

end Fifo

/-- The queue after a list of events. -/
def run (max : Nat) (events : List (Event α)) : Fifo α := events.foldl (Fifo.step max) {}

/-! ## What the history says -/

/-- The queue is what has come in and not left, and it is bounded; what left unpolled was the oldest
element of a full queue. -/
structure Sound (max : Nat) (f : Fifo α) : Prop where
  suffix : f.pushed = f.left.map Prod.fst ++ f.queue
  bound : f.queue.length ≤ max
  drops : f.drops.map Drop.element = f.dropped
  full : ∀ d ∈ f.drops, d.queue.length = max ∧ d.queue.head? = some d.element

theorem Sound.push {max : Nat} (hmax : 0 < max) {f : Fifo α} (h : Sound max f) (a : α) :
    Sound max (f.push max a) := by
  have hsuffix := h.suffix
  have hbound := h.bound
  unfold Fifo.push
  cases hqueue : f.queue with
  | nil =>
      rw [hqueue, List.append_nil] at hsuffix
      exact ⟨by rw [hsuffix], hmax, h.drops, h.full⟩
  | cons oldest rest =>
      rw [hqueue] at hsuffix hbound
      simp only
      split
      · next hfull =>
          refine ⟨by simp [hsuffix], by simpa using hbound, ?_, fun d hd => ?_⟩
          · rw [List.map_append, h.drops]
            simp [Fifo.dropped]
          · rcases List.mem_append.mp hd with hold | hnew
            · exact h.full d hold
            · rw [List.mem_singleton.mp hnew]
              exact ⟨Nat.le_antisymm hbound hfull, rfl⟩
      · next hroom =>
          refine ⟨by simp [hsuffix], ?_, h.drops, h.full⟩
          rw [List.length_append, List.length_singleton]
          omega

theorem Sound.poll {max : Nat} {f : Fifo α} (h : Sound max f) (limit : Nat) : Sound max (f.poll limit) where
  suffix := by
    show f.pushed = (f.left ++ (f.queue.take limit).map fun a => (a, true)).map Prod.fst ++ f.queue.drop limit
    have hback : ((f.queue.take limit).map fun a => (a, true)).map Prod.fst = f.queue.take limit := by
      rw [List.map_map]
      exact List.map_id _
    rw [List.map_append, hback, List.append_assoc, List.take_append_drop]
    exact h.suffix
  bound := by
    show (f.queue.drop limit).length ≤ max
    rw [List.length_drop]
    exact Nat.le_trans (Nat.sub_le _ _) h.bound
  drops := by
    have hnone : ((f.queue.take limit).map fun a => (a, true)).filter (!·.2) = [] := by
      rw [List.filter_eq_nil_iff]
      intro p hp
      obtain ⟨a, -, rfl⟩ := List.mem_map.mp hp
      exact Bool.false_ne_true
    show f.drops.map Drop.element = ((f.left ++ (f.queue.take limit).map fun a => (a, true)).filter
      (!·.2)).map Prod.fst
    rw [List.filter_append, hnone, List.append_nil]
    exact h.drops
  full := h.full

/-- The run lemma. -/
theorem run_sound {max : Nat} (hmax : 0 < max) (events : List (Event α)) : Sound max (run max events) := by
  have hrun : ∀ f : Fifo α, Sound max f → Sound max (events.foldl (Fifo.step max) f) := by
    induction events with
    | nil => exact fun f h => h
    | cons e events ih =>
        intro f h
        apply ih
        cases e with
        | push a => exact h.push hmax a
        | poll limit => exact h.poll limit
  exact hrun {} ⟨rfl, Nat.zero_le _, rfl, fun d hd => absurd hd List.not_mem_nil⟩

/-- The polls return elements that came in, each once and in the order they came. -/
theorem Sound.polled_sublist {max : Nat} {f : Fifo α} (h : Sound max f) :
    (f.polled ++ f.queue).Sublist f.pushed := by
  rw [h.suffix]
  exact (List.filter_sublist.map _).append (List.Sublist.refl _)

/-- Nothing is lost but what is dropped. -/
theorem Sound.perm {max : Nat} {f : Fifo α} (h : Sound max f) :
    f.pushed.Perm (f.polled ++ f.dropped ++ f.queue) := by
  rw [h.suffix]
  refine List.Perm.append_right f.queue ?_
  unfold Fifo.polled Fifo.dropped
  rw [← List.map_append]
  exact (List.filter_append_perm (·.2) f.left).symm.map _

end Lib.BoundedFifo
