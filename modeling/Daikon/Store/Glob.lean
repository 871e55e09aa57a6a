/-
# Daikon.Store.Glob -- what the pattern of `keys` matches

`match_recursive` walks two slices by their indices and tries every end of a star. It stays inside the
slices, and it finds a match if and only if the text is a word of the pattern (`matches_glob_iff`).

The matcher of the source is given with its indices (`matchRecursiveAt`), and returns nothing if it were to
read outside a slice, so that staying inside is a statement and not an assumption. `matchRecursive` of
`Daikon.Store.Reads` is the same without indices. Both are compared with `Lib.Glob`: the language of the
pattern is the product of the languages of its characters.
-/
import Daikon.Lib.Glob
import Daikon.Store.Reads

namespace Daikon

open Lib.Glob (Place words mem_words_nil mem_words_star mem_words_any mem_words_letter)

/-! ## The matcher on its indices -/

/-- `match_recursive` on two slices; none if it reads outside one. -/
def matchRecursiveAt (text pattern : List Char) (ti pi : Nat) : Option Bool :=
  if pi = pattern.length then some (ti == text.length)
  else if hpi : pi < pattern.length then
    if pattern[pi] = '*' then
      -- `for i in ti..=text.len()`, left at the first match
      (List.range' ti (text.length + 1 - ti)).anyM fun i => matchRecursiveAt text pattern i (pi + 1)
    else if ti < text.length then
      -- the text is not read at a `?`
      match (if pattern[pi] = '?' then some true else text[ti]?.map (pattern[pi] == ·)) with
      | none => none
      | some true => matchRecursiveAt text pattern (ti + 1) (pi + 1)
      | some false => some false
    else some false
  else none
termination_by pattern.length - pi

/-- `matches_glob`. -/
def matchesGlobAt (text pattern : String) : Option Bool :=
  matchRecursiveAt text.toList pattern.toList 0 0

section

variable {p : Char} (hstar : p ≠ '*')

include hstar

theorem matchRecursive_cons (t : Char) (text pattern : List Char) :
    matchRecursive (t :: text) (p :: pattern) = ((p == '?' || p == t) && matchRecursive text pattern) :=
  matchRecursive.eq_3 t text p pattern hstar

theorem matchRecursive_end (pattern : List Char) : matchRecursive [] (p :: pattern) = false :=
  matchRecursive.eq_4 p pattern hstar

end

theorem anyM_of_some {α : Type} {f : α → Option Bool} {g : α → Bool} (l : List α)
    (h : ∀ a ∈ l, f a = some (g a)) : l.anyM f = some (l.any g) := by
  induction l with
  | nil => rfl
  | cons a l ih =>
      have hrest := ih fun b hb => h b (List.mem_cons_of_mem a hb)
      rw [List.anyM_cons, h a List.mem_cons_self, hrest, List.any_cons]
      cases g a <;> rfl

/-- The ends that the loop tries are the ends of the text. -/
theorem tails_drop {text : List Char} {ti : Nat} (hti : ti ≤ text.length) :
    (text.drop ti).tails = (List.range' ti (text.length + 1 - ti)).map text.drop := by
  apply List.ext_getElem
  · simp only [List.length_tails, List.length_drop, List.length_map, List.length_range']
    omega
  · intro i hi hi'
    simp only [List.getElem_tails, List.drop_drop, List.getElem_map, List.getElem_range', one_mul]

/-- From indices inside the slices, the matcher reads inside them and compares what is left of them. -/
theorem matchRecursiveAt_eq (text pattern : List Char) {ti pi : Nat} (hti : ti ≤ text.length)
    (hpi : pi ≤ pattern.length) : matchRecursiveAt text pattern ti pi
      = some (matchRecursive (text.drop ti) (pattern.drop pi)) := by
  -- the recursion is on what is left of the pattern
  induction hleft : pattern.length - pi generalizing ti pi with
  | zero =>
      have hend : pi = pattern.length := by omega
      have hempty : (ti == text.length) = (text.drop ti).isEmpty := by
        rw [Bool.eq_iff_iff, beq_iff_eq, List.isEmpty_iff, List.drop_eq_nil_iff]
        omega
      rw [matchRecursiveAt, if_pos hend, hend, List.drop_length, matchRecursive, hempty]
  | succ left ih =>
      have hlt : pi < pattern.length := by omega
      have hdrop : pattern.drop pi = pattern[pi] :: pattern.drop (pi + 1) := List.drop_eq_getElem_cons hlt
      have hrest : ∀ i ≤ text.length, matchRecursiveAt text pattern i (pi + 1)
          = some (matchRecursive (text.drop i) (pattern.drop (pi + 1))) := fun i hi =>
        ih hi hlt (by omega)
      rw [matchRecursiveAt, if_neg (by omega), dif_pos hlt, hdrop]
      by_cases hstar : pattern[pi] = '*'
      · have hloop := anyM_of_some (List.range' ti (text.length + 1 - ti)) fun i hi =>
          hrest i (by have := List.mem_range'_1.mp hi; omega)
        rw [if_pos hstar, hloop, hstar, matchRecursive, tails_drop hti, List.any_map]
        rfl
      · rw [if_neg hstar]
        by_cases hin : ti < text.length
        · have htext : text.drop ti = text[ti] :: text.drop (ti + 1) := List.drop_eq_getElem_cons hin
          rw [if_pos hin, hrest (ti + 1) hin, htext, matchRecursive_cons hstar,
            List.getElem?_eq_getElem hin]
          by_cases hone : pattern[pi] = '?'
          · simp [hone]
          · cases hsame : pattern[pi] == text[ti] <;> simp [hone, hsame]
        · have htext : text.drop ti = [] := List.drop_of_length_le (by omega)
          rw [if_neg hin, htext, matchRecursive_end hstar]

theorem matchesGlobAt_eq (text pattern : String) :
    matchesGlobAt text pattern = some (matchesGlob text pattern) :=
  matchRecursiveAt_eq text.toList pattern.toList (Nat.zero_le _) (Nat.zero_le _)

/-! ## The language of a pattern -/

/-- What a character of a pattern stands for. -/
def globPlace (c : Char) : Place Char := if c = '*' then .star else if c = '?' then .any else .letter c

/-- The places of a pattern. -/
def globPlaces (pattern : String) : List (Place Char) := pattern.toList.map globPlace

theorem matchRecursive_iff (pattern : List Char) : ∀ text : List Char,
    matchRecursive text pattern = true ↔ text ∈ words (pattern.map globPlace) := by
  induction pattern with
  | nil =>
      intro text
      rw [matchRecursive, List.isEmpty_iff]
      exact mem_words_nil.symm
  | cons p pattern ih =>
      intro text
      rw [List.map_cons]
      by_cases hstar : p = '*'
      · rw [hstar, matchRecursive, List.any_eq_true]
        simp only [List.mem_tails, ih]
        exact mem_words_star.symm
      · cases text with
        | nil =>
            rw [matchRecursive_end hstar]
            by_cases hone : p = '?'
            · simp [globPlace, hone, mem_words_any]
            · simp [globPlace, hstar, hone, mem_words_letter]
        | cons t text =>
            rw [matchRecursive_cons hstar]
            by_cases hone : p = '?'
            · simp [globPlace, hone, mem_words_any, ih]
            · have hletter : globPlace p = .letter p := by rw [globPlace, if_neg hstar, if_neg hone]
              rw [hletter, mem_words_letter, Bool.and_eq_true, Bool.or_eq_true, ih]
              constructor
              · rintro ⟨hsame, hrest⟩
                obtain rfl : p = t := beq_iff_eq.mp (hsame.resolve_left (by simpa using hone))
                exact ⟨text, rfl, hrest⟩
              · rintro ⟨v, hcons, hrest⟩
                cases hcons
                exact ⟨.inr (beq_self_eq_true _), hrest⟩

/-- The matcher ends, reads inside its slices, and accepts exactly the words of the pattern. -/
theorem matches_glob_iff (text pattern : String) : ∃ found, matchesGlobAt text pattern = some found ∧
    (found = true ↔ text.toList ∈ words (globPlaces pattern)) :=
  ⟨matchesGlob text pattern, matchesGlobAt_eq text pattern, matchRecursive_iff _ _⟩

end Daikon
