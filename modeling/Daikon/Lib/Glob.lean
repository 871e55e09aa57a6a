/-
# Lib.Glob -- the language of a glob pattern

A pattern is a list of places. Each place stands for a set of words: any word, any one letter, or this
letter. The pattern stands for the concatenation of its places (`words`). The rules below say how a word
of a pattern begins, place by place, which is what a matcher decides.

The language of a list of places is defined by Mathlib's product of languages, with no matcher in sight. A
matcher that goes through the pattern place by place is shown to be right by comparing each of its steps
with one of the `mem_words` rules, in an induction over the pattern. For a star the rule asks for some
ending of the word (`mem_words_star`), which is the only place where a matcher has to try more than one way.
-/
import Mathlib.Computability.Language

namespace Lib.Glob

/-- A place of a pattern. -/
inductive Place (α : Type*) where
  /-- Any word. -/
  | star
  /-- Any letter. -/
  | any
  | letter (a : α)

variable {α : Type*}

/-- What a place stands for. -/
def Place.words : Place α → Language α
  | star => ⊤
  | any => {w | ∃ a, w = [a]}
  | letter a => {[a]}

/-- What a pattern stands for. -/
def words (pattern : List (Place α)) : Language α := (pattern.map Place.words).prod

variable {pattern : List (Place α)} {w : List α}

theorem mem_words_nil : w ∈ words ([] : List (Place α)) ↔ w = [] := Language.mem_one w

theorem mem_words_cons {p : Place α} :
    w ∈ words (p :: pattern) ↔ ∃ u ∈ p.words, ∃ v ∈ words pattern, u ++ v = w := by
  unfold words
  rw [List.map_cons, List.prod_cons, Language.mem_mul]

/-- A star takes some beginning of the word. -/
theorem mem_words_star : w ∈ words (.star :: pattern) ↔ ∃ v, v <:+ w ∧ v ∈ words pattern := by
  rw [mem_words_cons]
  constructor
  · rintro ⟨u, -, v, hv, rfl⟩
    exact ⟨v, List.suffix_append u v, hv⟩
  · rintro ⟨v, ⟨u, rfl⟩, hv⟩
    exact ⟨u, trivial, v, hv, rfl⟩

theorem mem_words_any : w ∈ words (.any :: pattern) ↔ ∃ a v, w = a :: v ∧ v ∈ words pattern := by
  rw [mem_words_cons]
  constructor
  · rintro ⟨u, ⟨a, rfl⟩, v, hv, rfl⟩
    exact ⟨a, v, rfl, hv⟩
  · rintro ⟨a, v, rfl, hv⟩
    exact ⟨[a], ⟨a, rfl⟩, v, hv, rfl⟩

theorem mem_words_letter {a : α} :
    w ∈ words (.letter a :: pattern) ↔ ∃ v, w = a :: v ∧ v ∈ words pattern := by
  rw [mem_words_cons]
  constructor
  · rintro ⟨u, rfl, v, hv, rfl⟩
    exact ⟨v, rfl, hv⟩
  · rintro ⟨v, rfl, hv⟩
    exact ⟨[a], rfl, v, hv, rfl⟩

end Lib.Glob
