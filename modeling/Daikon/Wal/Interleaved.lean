/-
# Daikon.Wal.Interleaved -- appends of several callers

`append` is two writes to a file opened for appending, the line and the newline, and nothing keeps
the writes of two callers apart. Two lines without a newline between them are one line of the file,
which gives at most one entry; `read_all_lossless_iff` makes of this the exact condition.

The file is opened in append mode, so each of the two writes lands at the end of the file, in one piece;
that is the assumption about the operating system. The interleaving of the writes is free. `Alone` is the
exact condition: no line is written while another append has its newline still to write.

The necessity of the condition is a counting argument. A line of the file gives one entry at most, two lines
that have come together are one, and no later write takes them apart (`Lost`), so at the end there are fewer
entries than appends.
-/
import Daikon.Lib.Run
import Daikon.Wal.File

namespace Daikon

open Lib (splitLines splitLines_append_of_notMem splitLines_concat)
open Lib.Run (Guarded)

/-- The file and, in the order of their lines, the appends with a line in it. -/
structure SharedLog where
  file : Bytes := []
  /-- Each entry, and whether the newline of its append is written. -/
  appends : List (WalEntry × Bool) := []

namespace SharedLog

/-- One of the two writes of an append. -/
inductive Action where
  /-- Some caller writes its line. -/
  | line (nonce : Option Nonce) (entry : WalEntry)
  /-- The caller of the i-th line writes its newline. -/
  | newline (i : Nat)

/-- What the write does to the file. An entry that cannot be encoded is not written. -/
def step (c : Codec) (s : SharedLog) : Action → SharedLog
  | .line nonce entry =>
      match c.encodeLine nonce entry with
      | .error _ => s
      | .ok line => ⟨s.file ++ line, s.appends ++ [(entry, false)]⟩
  | .newline i =>
      match s.appends[i]? with
      | some (entry, false) => ⟨s.file ++ [Daikon.newline], s.appends.set i (entry, true)⟩
      | _ => s

/-- Every append has written its newline. -/
def Finished (s : SharedLog) : Prop := ∀ a ∈ s.appends, a.2 = true

/-- `read_all` goes through and gives every appended entry once. -/
def Lossless (c : Codec) (s : SharedLog) : Prop :=
  ∃ entries, c.readAll s.file = .ok entries ∧ entries.Perm (s.appends.map Prod.fst)

/-- No line is written while another append has its newline still to write. -/
def Alone (c : Codec) (s : SharedLog) : Action → Prop
  | .line nonce entry => (∃ line, c.encodeLine nonce entry = .ok line) → s.Finished
  | .newline _ => True

/-- What a step can do: nothing, write the line of a new append, or end the line of a pending one. -/
theorem step_cases (c : Codec) (s : SharedLog) (a : Action) :
    s.step c a = s ∨
    (∃ nonce entry line, a = .line nonce entry ∧ c.encodeLine nonce entry = .ok line ∧
      s.step c a = ⟨s.file ++ line, s.appends ++ [(entry, false)]⟩) ∨
    (∃ i entry, a = .newline i ∧ s.appends[i]? = some (entry, false) ∧
      s.step c a = ⟨s.file ++ [Daikon.newline], s.appends.set i (entry, true)⟩) := by
  cases a with
  | line nonce entry =>
      cases hline : c.encodeLine nonce entry with
      | error e => exact .inl (by simp only [step, hline])
      | ok line => exact .inr (.inl ⟨nonce, entry, line, rfl, hline, by simp only [step, hline]⟩)
  | newline i =>
      simp only [step]
      split
      · rename_i entry hpending
        exact .inr (.inr ⟨i, entry, rfl, hpending, rfl⟩)
      · exact .inl rfl

/-! ## How many lines are written -/

/-- The number of lines of the file that hold anything. -/
def written (file : Bytes) : Nat :=
  (splitLines newline file).1.countP (· ≠ []) + if (splitLines newline file).2 = [] then 0 else 1

/-- A line joins what the file ends in. -/
theorem written_line (file : Bytes) {line : Bytes} (hnonempty : line ≠ []) (hone : newline ∉ line) :
    written (file ++ line)
      = written file + if (splitLines newline file).2 = [] then 1 else 0 := by
  unfold written
  rw [splitLines_append_of_notMem _ hone]
  by_cases hrest : (splitLines newline file).2 = []
  · simp [hrest, hnonempty]
  · simp [hrest]

theorem written_newline (file : Bytes) : written (file ++ [newline]) = written file := by
  unfold written
  rw [splitLines_concat, List.countP_append]
  by_cases hrest : (splitLines newline file).2 = []
  · simp [hrest]
  · simp [hrest]

/-- A line gives one entry at most, and an empty one none. -/
theorem length_readLines (c : Codec) (lines : List Bytes) :
    ∀ (lineNo : Nat) (entries : List WalEntry), c.readLines lineNo lines = .ok entries →
      entries.length ≤ lines.countP (· ≠ []) := by
  induction lines with
  | nil =>
      intro lineNo entries h
      cases h
      exact Nat.le_refl _
  | cons line lines ih =>
      intro lineNo entries h
      rw [Codec.readLines] at h
      rcases hline : c.readLine lineNo line with e | entry
      · rw [hline] at h
        cases h
      · rw [hline] at h
        rcases hlines : c.readLines (lineNo + 1) lines with e | rest
        · rw [hlines] at h
          cases h
        · rw [hlines] at h
          cases h
          have hrest := ih (lineNo + 1) rest hlines
          have hentry : entry.toList.length ≤ if line ≠ [] then 1 else 0 := by
            by_cases hempty : line = []
            · subst hempty
              have hnone : c.readLine lineNo [] = .ok none := rfl
              rw [hnone] at hline
              cases hline
              exact Nat.le_refl _
            · rw [if_pos hempty]
              cases entry <;> simp
          rw [List.length_append, List.countP_cons]
          simp only [decide_eq_true_eq]
          omega

theorem length_readAll {c : Codec} {file : Bytes} {entries : List WalEntry}
    (h : c.readAll file = .ok entries) : entries.length ≤ written file := by
  refine (length_readLines c _ 0 entries h).trans ?_
  unfold linesOf written
  rw [List.countP_append, List.countP_map]
  refine Nat.add_le_add (List.countP_mono_left fun line _ hline => ?_) ?_
  · have hstripped : stripCr line ≠ [] := of_decide_eq_true hline
    exact decide_eq_true fun hempty => hstripped (by rw [hempty]; rfl)
  · by_cases hrest : (splitLines newline file).2 = []
    · rw [if_pos hrest, if_pos hrest]
      exact Nat.le_refl _
    · rw [if_neg hrest, if_neg hrest]
      exact List.countP_le_length

/-- No step writes more lines than it starts appends. -/
theorem written_step {c : Codec} (hc : c.Lawful) (s : SharedLog) (a : Action) :
    written (s.step c a).file + s.appends.length ≤ written s.file + (s.step c a).appends.length := by
  rcases step_cases c s a with h | ⟨nonce, entry, line, -, hline, h⟩ | ⟨i, entry, -, -, h⟩
  · rw [h]
  · have hreads := Codec.encodeLine_reads hc hline
    rw [h]
    show written (s.file ++ line) + _ ≤ _ + (s.appends ++ [(entry, false)]).length
    rw [written_line _ hreads.nonempty hreads.oneLine, List.length_append, List.length_singleton]
    split <;> omega
  · rw [h]
    show written (s.file ++ [newline]) + _ ≤ _ + (s.appends.set i (entry, true)).length
    rw [written_newline, List.length_set]

/-- Two appends share a line, which none of the writes to come undoes. -/
def Lost (s : SharedLog) : Prop := written s.file < s.appends.length

theorem Lost.step {c : Codec} (hc : c.Lawful) {s : SharedLog} (h : s.Lost) (a : Action) :
    (s.step c a).Lost := by
  have hstep := written_step hc s a
  unfold Lost at h ⊢
  omega

theorem Lost.not_lossless {c : Codec} {s : SharedLog} (h : s.Lost) : ¬ s.Lossless c := by
  rintro ⟨entries, hread, hperm⟩
  have hentries := length_readAll hread
  have happends : entries.length = s.appends.length := by
    rw [hperm.length_eq, List.length_map]
  unfold Lost at h
  omega

/-! ## One append after another -/

/-- The lines ended so far are read as the entries of `done`. -/
def Holds (c : Codec) (s : SharedLog) (done : List (WalEntry × Bool)) : Prop :=
  (∀ a ∈ done, a.2 = true) ∧
    c.ReadsTo ((splitLines newline s.file).1.map stripCr) (done.map Prod.fst)

/-- Every line ended so far is that of one append; at most one append has its newline to write, and
the file then ends in its line. -/
inductive Framed (c : Codec) (s : SharedLog) : Prop
  | between (holds : s.Holds c s.appends) (rest : (splitLines newline s.file).2 = [])
  | within (done : List (WalEntry × Bool)) (entry : WalEntry)
      (appends : s.appends = done ++ [(entry, false)]) (holds : s.Holds c done)
      (rest : c.Reads (splitLines newline s.file).2 entry)

theorem Framed.lossless {c : Codec} {s : SharedLog} (h : s.Framed c) (hdone : s.Finished) :
    s.Lossless c := by
  cases h with
  | between holds rest =>
      refine ⟨s.appends.map Prod.fst, ?_, List.Perm.refl _⟩
      rw [Codec.readAll, linesOf, if_pos rest, List.append_nil]
      exact holds.2 0
  | within done entry appends holds rest =>
      have hpending : (entry, false) ∈ s.appends := appends ▸ List.mem_concat_self
      cases hdone _ hpending

/-- The one append that has its newline to write is the last. -/
theorem index_of_pending {done : List (WalEntry × Bool)} (hdone : ∀ a ∈ done, a.2 = true)
    {entry entry' : WalEntry} {i : Nat}
    (h : (done ++ [(entry, false)])[i]? = some (entry', false)) : i = done.length ∧ entry' = entry := by
  rw [List.getElem?_append] at h
  by_cases hi : i < done.length
  · rw [if_pos hi] at h
    cases hdone _ (List.mem_of_getElem? h)
  · rw [if_neg hi, List.getElem?_singleton] at h
    by_cases hzero : i - done.length = 0
    · rw [if_pos hzero] at h
      cases h
      exact ⟨by omega, rfl⟩
    · rw [if_neg hzero] at h
      cases h

theorem Framed.step {c : Codec} (hc : c.Lawful) {s : SharedLog} (h : s.Framed c) {a : Action}
    (halone : s.Alone c a) : (s.step c a).Framed c := by
  rcases step_cases c s a with
    hstep | ⟨nonce, entry, line, rfl, hline, hstep⟩ | ⟨i, entry, -, hpending, hstep⟩
  · rwa [hstep]
  · have hreads := Codec.encodeLine_reads hc hline
    rw [hstep]
    cases h with
    -- a line behind a line without its newline is what `Alone` forbids
    | within done pending appends holds rest =>
        have hpending : (pending, false) ∈ s.appends := appends ▸ List.mem_concat_self
        cases halone ⟨line, hline⟩ _ hpending
    | between holds rest =>
        have hsplit : splitLines newline (s.file ++ line) = ((splitLines newline s.file).1, line) := by
          rw [splitLines_append_of_notMem _ hreads.oneLine, rest]
          rfl
        refine .within s.appends entry rfl ⟨holds.1, ?_⟩ ?_
        · rw [hsplit]
          exact holds.2
        · rw [hsplit]
          exact hreads
  · rw [hstep]
    cases h with
    | between holds rest => cases holds.1 _ (List.mem_of_getElem? hpending)
    | within done last appends holds rest =>
        rw [appends] at hpending
        -- the newline can only be that of the last line
        obtain ⟨rfl, rfl⟩ := index_of_pending holds.1 hpending
        have hset : s.appends.set done.length (entry, true) = done ++ [(entry, true)] := by
          rw [appends, List.set_append_right _ _ (Nat.le_refl _), Nat.sub_self]
          rfl
        rw [hset]
        refine .between ⟨?_, ?_⟩ (by rw [splitLines_concat])
        · intro a ha
          rcases List.mem_append.mp ha with ha | ha
          · exact holds.1 a ha
          · rw [List.mem_singleton.mp ha]
        · rw [splitLines_concat, List.map_append, List.map_append, List.map_singleton, rest.noCr]
          exact holds.2.append rest.readsTo

/-- A line written while the last one is not ended is lost. -/
theorem Framed.lost {c : Codec} (hc : c.Lawful) {s : SharedLog} (h : s.Framed c)
    (hwritten : written s.file ≤ s.appends.length) {a : Action} (halone : ¬ s.Alone c a) :
    (s.step c a).Lost := by
  cases a with
  | newline i => exact absurd trivial halone
  | line nonce entry =>
      obtain ⟨⟨line, hline⟩, hbusy⟩ := Classical.not_imp.mp halone
      have hreads := Codec.encodeLine_reads hc hline
      cases h with
      | between holds rest => exact absurd holds.1 hbusy
      | within done pending appends holds rest =>
          -- the file ends in the line of `pending`, so there is no new line
          simp only [Lost, SharedLog.step, hline]
          rw [written_line _ hreads.nonempty hreads.oneLine, if_neg rest.nonempty, List.length_append,
            List.length_singleton]
          omega

theorem Lost.foldl {c : Codec} (hc : c.Lawful) {actions : List Action} {s : SharedLog} (h : s.Lost) :
    (actions.foldl (SharedLog.step c) s).Lost := by
  induction actions generalizing s with
  | nil => exact h
  | cons a actions ih => exact ih (h.step hc a)

/-- The run is alone to its end, or has lost an entry by then. -/
theorem framed_or_lost {c : Codec} (hc : c.Lawful) (actions : List Action) :
    ∀ {s : SharedLog}, s.Framed c → written s.file ≤ s.appends.length →
      (Guarded (step c) (Alone c) s actions ∧ (actions.foldl (step c) s).Framed c) ∨
      (¬ Guarded (step c) (Alone c) s actions ∧ (actions.foldl (step c) s).Lost) := by
  induction actions with
  | nil => intro s h _; exact .inl ⟨trivial, h⟩
  | cons a actions ih =>
      intro s h hwritten
      by_cases halone : s.Alone c a
      · have hstep := written_step hc s a
        rcases ih (h.step hc halone) (by omega) with ⟨hguard, hframed⟩ | ⟨hguard, hlost⟩
        · exact .inl ⟨⟨halone, hguard⟩, hframed⟩
        · exact .inr ⟨fun hall => hguard hall.2, hlost⟩
      · refine .inr ⟨fun hall => halone hall.1, ?_⟩
        have hlost := h.lost hc hwritten halone
        show (actions.foldl (step c) (s.step c a)).Lost
        exact hlost.foldl hc

/-- Concurrent appends lose nothing exactly if they are not concurrent: once all appends have
finished, `read_all` gives every entry once if and only if no line was written while another append
had its newline still to write. -/
theorem read_all_lossless_iff (c : Codec) (hc : c.Lawful) (actions : List Action)
    (hdone : (actions.foldl (step c) {}).Finished) :
    (actions.foldl (step c) {}).Lossless c ↔ Guarded (step c) (Alone c) {} actions := by
  have hstart : ({} : SharedLog).Framed c :=
    .between ⟨fun a ha => absurd ha List.not_mem_nil, Codec.ReadsTo.nil c⟩ rfl
  rcases framed_or_lost hc actions hstart (Nat.le_refl 0) with
    ⟨hguard, hframed⟩ | ⟨hguard, hlost⟩
  · exact iff_of_true (hframed.lossless hdone) hguard
  · exact iff_of_false hlost.not_lossless hguard

/-- Two appends, one after the other. -/
theorem read_all_lossless_iff_serial :
    SharedLog.Lossless .deletions ([.line none ⟨0, .delete "a"⟩, .newline 0,
      .line none ⟨0, .delete "b"⟩, .newline 1].foldl (step .deletions) {}) := by
  refine (read_all_lossless_iff .deletions Codec.deletions_lawful _ ?_).mpr
    ⟨fun _ => ?_, trivial, fun _ => ?_, trivial, trivial⟩
  all_goals
    intro a ha
    revert a
    decide +kernel

/-- Both lines come before both newlines: neither entry is read. -/
theorem joined_lines_lost :
    ¬ (SharedLog.Finished ([.line none ⟨0, .delete "a"⟩, .line none ⟨0, .delete "b"⟩, .newline 0,
        .newline 1].foldl (step .deletions) {}) →
      SharedLog.Lossless .deletions ([.line none ⟨0, .delete "a"⟩, .line none ⟨0, .delete "b"⟩,
        .newline 0, .newline 1].foldl (step .deletions) {})) := by
  intro h
  obtain ⟨entries, hread, hperm⟩ := h (by unfold Finished; decide +kernel)
  have hfile : Codec.deletions.readAll ([.line none ⟨0, .delete "a"⟩, .line none ⟨0, .delete "b"⟩,
      .newline 0, .newline 1].foldl (step .deletions) {}).file = .ok [] := by
    decide +kernel
  rw [hfile] at hread
  cases hread
  exact absurd hperm.length_eq (by decide +kernel)

end SharedLog

end Daikon
