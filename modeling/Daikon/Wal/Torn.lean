/-
# Daikon.Wal.Torn -- appends that a crash cuts short

A crash can leave any first part of the line and its newline in the file. A restart does not touch
the file, and the next append continues whatever line it ends in. `torn_write_survives` says for
which runs `read_all` still gives every acknowledged entry.

A file that ends in the middle of a line is continued by the next append, and what was acknowledged is then
part of a line that may not be an entry (`torn_byte_loses_entry`). The condition `WholeLines` is on each
append in the state in which it is made: it starts at a line start if it reaches the file at all, and what a
crash leaves of its line is text that `read_all` does not stop at.

So a torn append is harmless as long as nothing is appended behind it, or all of its line is there. The
program never repairs a file, and `read_all` of a torn file gives what was acknowledged before.
-/
import Daikon.Lib.Run
import Daikon.Wal.File

namespace Daikon

open Lib (splitLines splitLines_append_of_notMem splitLines_concat)
open Lib.Run (Always Guarded)

/-- One call of `append`, with the number of bytes that reach the file if a crash cuts it short. -/
structure Append where
  nonce : Option Nonce
  entry : WalEntry
  cut : Option Nat := none

/-- The file, and the entries whose append has returned `Ok`. -/
structure LogFile where
  file : Bytes := []
  acknowledged : List WalEntry := []

namespace LogFile

/-- An append. One whose entry cannot be encoded writes nothing, and one that is cut leaves the first bytes
of its line and is not acknowledged. -/
def step (c : Codec) (s : LogFile) (a : Append) : LogFile :=
  match c.encodeLine a.nonce a.entry with
  | .error _ => s
  | .ok line =>
      match a.cut with
      | none => ⟨s.file ++ (line ++ [newline]), s.acknowledged ++ [a.entry]⟩
      | some n => { s with file := s.file ++ (line ++ [newline]).take n }

/-- `read_all` goes through and gives the acknowledged entries, in order, among others. -/
def Survives (c : Codec) (s : LogFile) : Prop :=
  ∃ entries, c.readAll s.file = .ok entries ∧ s.acknowledged.Sublist entries

/-- The file is empty or ends with a newline. -/
def AtLineStart (s : LogFile) : Prop := s.file = [] ∨ s.file.getLast? = some newline

/-- An append that reaches the file starts a line of its own, and what a crash leaves of the line
before its newline is harmless. -/
def WholeLines (c : Codec) (s : LogFile) (a : Append) : Prop :=
  ∀ line, c.encodeLine a.nonce a.entry = .ok line →
    a.cut = some 0 ∨
      (s.AtLineStart ∧ ∀ n, a.cut = some n → line.length < n ∨ c.Harmless (line.take n))

/-! ## The lines of the file -/

/-- At a line start nothing is left after the last newline. -/
theorem rest_of_atLineStart {s : LogFile} (h : s.AtLineStart) :
    (splitLines newline s.file).2 = [] := by
  rcases h with hnil | hlast
  · rw [hnil]
    rfl
  · obtain ⟨before, hfile⟩ := List.getLast?_eq_some_iff.mp hlast
    rw [hfile, splitLines_concat]

/-- The ended lines are read, to at least the acknowledged entries, and the rest is harmless. -/
structure Sound (c : Codec) (s : LogFile) : Prop where
  lines : ∃ entries, c.ReadsTo ((splitLines newline s.file).1.map stripCr) entries ∧
    s.acknowledged.Sublist entries
  rest : (splitLines newline s.file).2 = [] ∨ c.Harmless (splitLines newline s.file).2

theorem Sound.survives {c : Codec} {s : LogFile} (h : Sound c s) : Survives c s := by
  obtain ⟨entries, hlines, hsub⟩ := h.lines
  by_cases hnil : (splitLines newline s.file).2 = []
  · refine ⟨entries, ?_, hsub⟩
    rw [Codec.readAll, linesOf, if_pos hnil, List.append_nil]
    exact hlines 0
  · obtain ⟨more, hmore⟩ := (h.rest.resolve_left hnil).readsTo
    refine ⟨entries ++ more, ?_, hsub.trans (List.sublist_append_left _ _)⟩
    rw [Codec.readAll, linesOf, if_neg hnil]
    exact hlines.append hmore 0

/-- A whole line of an entry, written at a line start. -/
theorem Sound.whole {c : Codec} {s : LogFile} (h : Sound c s) (hstart : s.AtLineStart) {line : Bytes}
    {entry : WalEntry} (hline : c.Reads line entry) {acknowledged : List WalEntry}
    (hack : acknowledged.Sublist (s.acknowledged ++ [entry])) :
    Sound c ⟨s.file ++ (line ++ [newline]), acknowledged⟩ := by
  obtain ⟨entries, hlines, hsub⟩ := h.lines
  have hsplit : splitLines newline (s.file ++ (line ++ [newline]))
      = ((splitLines newline s.file).1 ++ [line], []) := by
    rw [← List.append_assoc, splitLines_concat, splitLines_append_of_notMem _ hline.oneLine,
      rest_of_atLineStart hstart]
    rfl
  refine ⟨⟨entries ++ [entry], ?_, hack.trans (hsub.append (List.Sublist.refl _))⟩, .inl ?_⟩
  · rw [hsplit, List.map_append, List.map_singleton, hline.noCr]
    exact hlines.append hline.readsTo
  · rw [hsplit]

/-- The first part of a line, written at a line start. -/
theorem Sound.part {c : Codec} {s : LogFile} (h : Sound c s) (hstart : s.AtLineStart) {part : Bytes}
    (hpart : newline ∉ part) (hharmless : c.Harmless part) :
    Sound c { s with file := s.file ++ part } := by
  have hsplit : splitLines newline (s.file ++ part) = ((splitLines newline s.file).1, part) := by
    rw [splitLines_append_of_notMem _ hpart, rest_of_atLineStart hstart]
    rfl
  refine ⟨?_, .inr ?_⟩
  · rw [hsplit]
    exact h.lines
  · rw [hsplit]
    exact hharmless

theorem Sound.step {c : Codec} (hc : c.Lawful) {s : LogFile} (h : Sound c s) {a : Append}
    (hwhole : WholeLines c s a) : Sound c (s.step c a) := by
  unfold LogFile.step
  cases hline : c.encodeLine a.nonce a.entry with
  | error e => exact h
  | ok line =>
      have hreads := Codec.encodeLine_reads hc hline
      rcases hcut : a.cut with _ | n
      · -- nothing is cut off
        rcases hwhole line hline with hnone | ⟨hstart, -⟩
        · rw [hcut] at hnone
          cases hnone
        · exact h.whole hstart hreads (List.Sublist.refl _)
      · rcases hwhole line hline with hzero | ⟨hstart, htorn⟩
        · rw [hcut] at hzero
          cases hzero
          simpa using h
        · by_cases hlong : line.length < n
          · have hall : (line ++ [newline]).take n = line ++ [newline] :=
              List.take_of_length_le (by rw [List.length_append]; exact hlong)
            simp only [hall]
            exact h.whole hstart hreads (List.sublist_append_left _ _)
          · have hharmless := (htorn n hcut).resolve_left hlong
            have hpart : (line ++ [newline]).take n = line.take n :=
              List.take_append_of_le_length (by omega)
            simp only [hpart]
            exact h.part hstart (fun hmem => hreads.oneLine (List.mem_of_mem_take hmem)) hharmless

/-- The log survives torn writes: in every run of whole and torn appends in which each append that
reaches the file starts a line of its own and what is torn is harmless, `read_all` gives, after every
append, all acknowledged entries in order. -/
theorem torn_write_survives (c : Codec) (hc : c.Lawful) (appends : List Append)
    (h : Guarded (step c) (WholeLines c) {} appends) : Always (step c) (Survives c) {} appends := by
  have hstart : Sound c {} := ⟨⟨[], Codec.ReadsTo.nil c, List.Sublist.refl _⟩, .inl rfl⟩
  exact (h.always (fun _ _ hs ha => hs.step hc ha) hstart).mono fun _ hs => hs.survives

/-- A whole append, and one of which the first byte reaches the file. -/
theorem torn_write_survives_first_byte :
    Always (step .deletions) (Survives .deletions) {}
      [{ nonce := none, entry := ⟨0, .delete "a"⟩ },
        { nonce := none, entry := ⟨0, .delete "b"⟩, cut := some 1 }] := by
  refine torn_write_survives .deletions Codec.deletions_lawful _ ⟨?_, ?_, trivial⟩
  · exact fun _ _ => .inr ⟨.inl rfl, fun n hn => by cases hn⟩
  · intro line hline
    cases hline
    refine .inr ⟨.inr ?_, fun n hn => ?_⟩
    · decide +kernel
    · cases hn
      refine .inr ⟨?_, utf8 "\x7b", ?_⟩
      · decide +kernel
      · decide +kernel

/-- One byte of a torn append: the next entry is acknowledged, and lost with the line. -/
theorem torn_byte_loses_entry :
    ¬ Survives .deletions ([{ nonce := none, entry := ⟨0, .delete "a"⟩, cut := some 1 },
      { nonce := none, entry := ⟨0, .delete "b"⟩ }].foldl (step .deletions) {}) := by
  rintro ⟨entries, hread, hsub⟩
  have hfile : Codec.deletions.readAll ([({ nonce := none, entry := ⟨0, .delete "a"⟩, cut := some 1 } :
      Append), { nonce := none, entry := ⟨0, .delete "b"⟩ }].foldl (step .deletions) {}).file
        = .ok [] := by
    decide +kernel
  rw [hfile] at hread
  cases hread
  cases hsub

end LogFile

end Daikon
