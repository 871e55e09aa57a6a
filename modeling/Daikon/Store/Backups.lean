/-
# Daikon.Store.Backups -- the backups that saves leave

A run of `save_with_version` over the directory of its file. A save copies the file to a backup that is
named by the second, prunes the backups by the times they were modified and then takes the file's place.
So the backups are a `Lib.Rotation` of what the file held (`Holds.save_next`, `holds_run`): they are those of the
last saves exactly if no two of them were made in one second (`backups_keep_newest_iff`).

Times do not go back, and file times have the precision of the clock, which is finer than the second in a
backup's name. The order in which backups are pruned is therefore that of the saves, and the only thing that
goes wrong is a name that is taken: a second save in one second overwrites the backup of the first, which is
not the oldest one.

The invariant `Holds` tells the directory by a list of backups, with when each was made and what it holds,
in the place of the files themselves; `Lib.Rotation` speaks of that list. What is saved first is never a
backup of anything (`Holds.save_first`), so that the newest versions kept are those before the last save.
-/
import Daikon.Lib.Rotation
import Daikon.Store.Atomic
import Daikon.Store.Decimal
import Daikon.Recovery.SaveLoad

namespace Daikon

open Lib.Run Lib.Rotation

/-! ## The directory and its calls -/

/-- A call of `save_with_version`, on a disk where no file operation fails. -/
structure SaveCall where
  store : KvStore
  /-- The clock, in nanoseconds. -/
  time : Nat
  /-- The order in which `read_dir` lists the directory. -/
  order : List (String × Nat) → List (String × Nat)
  order_perm : ∀ entries, (order entries).Perm entries

/-- The clock as the name of a backup has it. -/
def epochSecs (time : Nat) : Nat := time / 1000000000

/-- The name of a backup made in that second. -/
def backupName (name : String) (epoch : Nat) : String := s!"{name}.bak.{epoch}"

/-- A name that starts as the backups of the file do. -/
def isBackup (name n : String) : Bool := (name ++ ".bak.").toList.isPrefixOf n.toList

/-- The regular files of the directory: what they hold, and when they were modified. -/
structure SaveDir (B : Type) where
  files : Files B
  entries : List (String × Nat)

/-- A file of that name is there, modified now. -/
def touchEntry (name : String) (time : Nat) (entries : List (String × Nat)) : List (String × Nat) :=
  entries.filter (fun f => f.1 ≠ name) ++ [(name, time)]

variable {B : Type}

namespace SaveDir

/-- The directory when `save_with_version` reads it, after the copy. -/
def copied (d : SaveDir B) (path : Path) (time : Nat) : List (String × Nat) :=
  match path.fileName with
  | some name =>
      if (d.files path.dir name).isSome then touchEntry (backupName name (epochSecs time)) time d.entries
      else d.entries
  | none => d.entries

/-- `save_with_version` in a directory. -/
def save (lib : FileLib B) (path : Path) (maxVersions : Nat) (d : SaveDir B) (call : SaveCall) :
    Except String Unit × SaveDir B :=
  let copied := d.copied path call.time
  let disk : Disk := { epoch := epochSecs call.time, listing := call.order copied }
  let (answer, files) := call.store.saveWithVersion lib disk path maxVersions d.files
  let renamed := match path.fileName with
    | some name => touchEntry name call.time copied
    | none => copied
  (answer, { files, entries := renamed.filter fun f => (files path.dir f.1).isSome })

/-- The directory after a call. -/
def step (lib : FileLib B) (path : Path) (maxVersions : Nat) (d : SaveDir B) (call : SaveCall) : SaveDir B :=
  (d.save lib path maxVersions call).2

/-- No file of that name and no backups of it. -/
structure Fresh (d : SaveDir B) (dir name : String) : Prop where
  file : d.files dir name = none
  backups : ∀ n, isBackup name n = true → d.files dir n = none ∧ ∀ time, (n, time) ∉ d.entries

/-- The backups of the file are as many as these contents, and hold them. -/
def HoldsBackups (d : SaveDir B) (dir name : String) (contents : List B) : Prop :=
  ∃ backups : List (String × B), (backups.map Prod.fst).Nodup ∧
    (∀ n b, (n, b) ∈ backups ↔ isBackup name n = true ∧ d.files dir n = some b) ∧
    (backups.map Prod.snd).Perm contents

end SaveDir

/-- What a save writes. -/
def KvStore.content (s : KvStore) (lib : FileLib B) (path : Path) : B :=
  lib.pack (compressionForPath path) (lib.toWriterPretty (Serde.encodeStore lib.toSerializer s))

/-- After the calls the backups hold what was saved by the last `max_versions` calls before the last one. -/
def KeepsNewest (lib : FileLib B) (path : Path) (name : String) (maxVersions : Nat) (d : SaveDir B)
    (calls : List SaveCall) : Prop :=
  (calls.foldl (SaveDir.step lib path maxVersions) d).HoldsBackups path.dir name
    ((calls.map fun call => call.store.content lib path).dropLast.rtake maxVersions)

/-! ## The names of backups -/

theorem backupName_eq (name : String) (epoch : Nat) :
    backupName name epoch = name ++ ".bak." ++ Nat.repr epoch := rfl

theorem backupName_inj {name : String} {e e' : Nat} : backupName name e = backupName name e' ↔ e = e' := by
  rw [backupName_eq, backupName_eq]
  constructor
  · intro h
    have hlists := congrArg String.toList h
    rw [String.toList_append, String.toList_append (s := name ++ ".bak."), List.append_cancel_left_eq,
      Nat.toList_repr, Nat.toList_repr] at hlists
    have hparsed := congrArg parseDigits hlists
    rw [parseDigits_toDigits, parseDigits_toDigits] at hparsed
    exact Option.some.inj hparsed
  · exact fun h => by rw [h]

theorem isBackup_backupName (name : String) (epoch : Nat) : isBackup name (backupName name epoch) = true := by
  rw [isBackup, backupName_eq, String.toList_append (s := name ++ ".bak."), List.isPrefixOf_iff_prefix]
  exact List.prefix_append _ _

theorem ne_of_isBackup {name n : String} (h : isBackup name n = true) : n ≠ name :=
  KvStore.ne_of_backup_name h

/-- The temporary file is no backup. -/
theorem isBackup_tmp (name : String) : isBackup name (name ++ ".tmp") = false := by
  rw [Bool.eq_false_iff]
  intro h
  have hprefix := List.isPrefixOf_iff_prefix.mp h
  rw [String.toList_append, String.toList_append, List.prefix_append_right_inj] at hprefix
  revert hprefix
  decide

/-! ## What a save does to the backups -/

namespace KvStore

/-- The loop removes the first backups, as many as are too many. -/
theorem pruneBackups_eq {disk : Disk} (hremoves : ∀ n, disk.keeps n = false) (dir n : String)
    (maxVersions : Nat) (backups : List (String × Nat)) : ∀ files : Files B,
    pruneBackups disk dir maxVersions backups files dir n
      = if n ∈ (backups.take (backups.length - maxVersions)).map Prod.fst then none else files dir n := by
  induction backups with
  | nil =>
      intro files
      rw [List.take_nil]
      exact (if_neg List.not_mem_nil).symm
  | cons oldest backups ih =>
      intro files
      unfold pruneBackups
      by_cases hmany : (oldest :: backups).length > maxVersions
      · have hcount : (oldest :: backups).length - maxVersions = (backups.length - maxVersions) + 1 := by
          rw [List.length_cons] at hmany ⊢
          omega
        rw [if_pos hmany, hremoves, if_neg Bool.false_ne_true, ih, hcount, List.take_succ_cons,
          List.map_cons]
        by_cases holdest : n = oldest.1
        · have hremoved : (files.remove dir oldest.1) dir n = none := if_pos ⟨rfl, holdest⟩
          rw [hremoved, ite_self]
          exact (if_pos (List.mem_cons.mpr (.inl holdest))).symm
        · simp only [List.mem_cons, holdest, false_or, files.remove_of_ne holdest]
      · rw [if_neg hmany, Nat.sub_eq_zero_of_le (Nat.le_of_not_lt hmany), List.take_zero]
        exact (if_neg List.not_mem_nil).symm

variable (lib : FileLib B) {path : Path} {name : String} (files : Files B) (epoch : Nat)
  (listing : List (String × Nat))

/-- A save on a disk where nothing fails: the file is replaced, and what else is done to backups is done
by `backup`. -/
theorem saveWithVersion_quiet (s : KvStore) (hname : path.fileName = some name) (maxVersions : Nat) :
    ∃ files', s.saveWithVersion lib { epoch, listing } path maxVersions files = (.ok (), files') ∧
      files' path.dir name = some (s.content lib path) ∧
      ∀ n, isBackup name n = true → files' path.dir n
        = (backup lib { epoch, listing } path.dir name maxVersions files).2 path.dir n := by
  have htmp := tmpPath_fileName_eq hname
  have hok : (backup lib { epoch, listing } path.dir name maxVersions files).1 = .ok () :=
    (backup_ok_iff ..).mpr fun h => h.2.elim (· rfl) (· rfl)
  rcases hbackup : backup lib { epoch, listing } path.dir name maxVersions files with ⟨answer, kept⟩
  obtain rfl : answer = .ok () := by rwa [hbackup] at hok
  unfold saveWithVersion
  simp only [hname, hbackup, writeFile, htmp, tmpPath_dir]
  refine ⟨_, rfl, ?_, fun n hn => ?_⟩
  · refine (Files.read_eq _ hname).symm.trans ((Files.read_rename _ _ _ _ hname).trans ?_)
    rw [Files.read_eq _ htmp, tmpPath_dir]
    exact if_pos ⟨rfl, rfl⟩
  · have hne : n ≠ name := ne_of_isBackup hn
    have hnetmp : n ≠ name ++ ".tmp" := by
      rintro rfl
      rw [isBackup_tmp] at hn
      cases hn
    unfold Files.rename
    rw [if_neg fun h => hne (Option.some.inj (h.2.trans hname)),
      if_neg fun h => hnetmp (Option.some.inj (h.2.trans htmp))]
    exact Files.put_of_ne _ _ hnetmp

end KvStore

/-! ## The backups are a rotation -/

/-- A backup as `read_dir` lists it, told by when it was made. -/
def backupEntry (name : String) (time : Nat) : String × Nat := (backupName name (epochSecs time), time)

namespace SaveDir

/-- The backups in the directory are these, told by when they were made and what they hold. -/
structure Holds (dir name : String) (d : SaveDir B) (kept : List (Nat × B)) : Prop where
  held : ∀ f ∈ kept, d.files dir (backupName name (epochSecs f.1)) = some f.2
  only : ∀ n, isBackup name n = true → d.files dir n ≠ none →
    ∃ f ∈ kept, backupName name (epochSecs f.1) = n
  listed : (d.entries.filter fun f => isBackup name f.1).Perm (kept.map fun f => backupEntry name f.1)
  sorted : kept.Pairwise fun f g => epochSecs f.1 < epochSecs g.1

variable {dir name : String} {d : SaveDir B} {kept : List (Nat × B)} {time : Nat}

theorem Fresh.holds (h : d.Fresh dir name) : d.Holds dir name [] where
  held _ hf := absurd hf List.not_mem_nil
  only n hn hfile := absurd (h.backups n hn).1 hfile
  listed := by
    have hnone : d.entries.filter (fun f => isBackup name f.1) = [] :=
      List.filter_eq_nil_iff.mpr fun f hf hn => (h.backups f.1 hn).2 f.2 hf
    rw [hnone, List.map_nil]
  sorted := .nil

/-- The backups with a new one, before old ones are removed. -/
def withBackup (kept : List (Nat × B)) (time : Nat) (b : B) : List (Nat × B) :=
  kept.filter (fun f => epochSecs f.1 ≠ epochSecs time) ++ [(time, b)]

theorem Holds.sorted_withBackup (h : d.Holds dir name kept) (hlate : ∀ f ∈ kept, f.1 ≤ time) (b : B) :
    (withBackup kept time b).Pairwise fun f g => epochSecs f.1 < epochSecs g.1 := by
  rw [withBackup, List.pairwise_append]
  refine ⟨h.sorted.sublist List.filter_sublist, List.pairwise_singleton _ _, fun f hf g hg => ?_⟩
  obtain ⟨hmem, hne⟩ := List.mem_filter.mp hf
  rw [List.mem_singleton.mp hg]
  exact Nat.lt_of_le_of_ne (Nat.div_le_div_right (hlate f hmem)) (of_decide_eq_true hne)

/-- What is listed after the copy. -/
theorem Holds.listed_withBackup (h : d.Holds dir name kept) (b : B) :
    ((touchEntry (backupName name (epochSecs time)) time d.entries).filter fun f => isBackup name f.1).Perm
      ((withBackup kept time b).map fun f => backupEntry name f.1) := by
  unfold touchEntry withBackup
  rw [List.filter_append, List.map_append, List.filter_comm]
  refine List.Perm.append ?_ (List.Perm.of_eq ?_)
  · refine (h.listed.filter _).trans (List.Perm.of_eq ?_)
    rw [List.filter_map]
    congr 1
    refine List.filter_congr fun f _ => ?_
    simp [backupEntry, backupName_inj]
  · exact List.filter_cons_of_pos (isBackup_backupName _ _)

/-- The copy, which takes the place of a backup of the same second. -/
theorem Holds.copy (h : d.Holds dir name kept) (hlate : ∀ f ∈ kept, f.1 ≤ time) (b : B) :
    Holds dir name
      { files := d.files.put dir (backupName name (epochSecs time)) b
        entries := touchEntry (backupName name (epochSecs time)) time d.entries }
      (withBackup kept time b) where
  held f hf := by
    rcases List.mem_append.mp hf with hold | hnew
    · obtain ⟨hmem, hne⟩ := List.mem_filter.mp hold
      have hother : epochSecs f.1 ≠ epochSecs time := of_decide_eq_true hne
      exact (Files.put_of_ne _ _ fun heq => hother (backupName_inj.mp heq)).trans (h.held f hmem)
    · rw [List.mem_singleton.mp hnew]
      exact if_pos ⟨rfl, rfl⟩
  only n hn hfile := by
    by_cases hnew : n = backupName name (epochSecs time)
    · exact ⟨(time, b), List.mem_append_right _ (List.mem_singleton_self _), hnew.symm⟩
    · have hold : d.files dir n ≠ none := fun hnone => hfile ((Files.put_of_ne _ _ hnew).trans hnone)
      obtain ⟨f, hf, rfl⟩ := h.only n hn hold
      refine ⟨f, List.mem_append_left _ (List.mem_filter.mpr ⟨hf, decide_eq_true fun heq => hnew ?_⟩), rfl⟩
      rw [heq]
  listed := h.listed_withBackup b
  sorted := h.sorted_withBackup hlate b

/-- The file is no backup of itself: touching it leaves the backups as they are listed. -/
theorem filter_touchEntry (name : String) (time : Nat) (entries : List (String × Nat)) :
    (touchEntry name time entries).filter (fun f => isBackup name f.1)
      = entries.filter fun f => isBackup name f.1 := by
  have hfile : [(name, time)].filter (fun f => isBackup name f.1) = [] :=
    List.filter_cons_of_neg fun hn => ne_of_isBackup hn rfl
  unfold touchEntry
  rw [List.filter_append, hfile, List.append_nil, List.filter_filter]
  refine List.filter_congr fun f _ => ?_
  by_cases hn : isBackup name f.1 = true
  · simp [hn, ne_of_isBackup hn]
  · simp [hn]

/-- The removal of the first backups, and the file that is renamed. -/
theorem Holds.prune {made : List (Nat × B)} {k : Nat} (h : d.Holds dir name made) {files : Files B}
    (hfiles : ∀ n, isBackup name n = true → files dir n
      = if n ∈ ((made.map fun f => backupEntry name f.1).take k).map Prod.fst then none else d.files dir n) :
    Holds dir name
      { files, entries := (touchEntry name time d.entries).filter fun f => (files dir f.1).isSome }
      (made.drop k) := by
  have hparts := List.take_append_drop k made
  have hsorted := h.sorted
  rw [← hparts, List.pairwise_append] at hsorted
  obtain ⟨-, hdropped, hbefore⟩ := hsorted
  have hnames : ((made.map fun f => backupEntry name f.1).take k).map Prod.fst
      = (made.take k).map fun f => backupName name (epochSecs f.1) := by
    rw [← List.map_take, List.map_map]
    rfl
  rw [hnames] at hfiles
  have hremoved : ∀ f ∈ made.take k, files dir (backupName name (epochSecs f.1)) = none := fun f hf =>
    (hfiles _ (isBackup_backupName _ _)).trans (if_pos (List.mem_map_of_mem hf))
  have hstays : ∀ f ∈ made.drop k, files dir (backupName name (epochSecs f.1)) = some f.2 := by
    intro f hf
    rw [hfiles _ (isBackup_backupName _ _), if_neg, h.held f (List.mem_of_mem_drop hf)]
    intro hmem
    obtain ⟨g, hg, heq⟩ := List.mem_map.mp hmem
    exact Nat.ne_of_lt (hbefore g hg f hf) (backupName_inj.mp heq)
  refine ⟨hstays, fun n hn hfile => ?_, ?_, hdropped⟩
  · have hkept : ¬ n ∈ (made.take k).map fun f => backupName name (epochSecs f.1) := fun hmem =>
      hfile ((hfiles n hn).trans (if_pos hmem))
    have hold : d.files dir n ≠ none := fun hnone => hfile (((hfiles n hn).trans (if_neg hkept)).trans hnone)
    obtain ⟨f, hf, rfl⟩ := h.only n hn hold
    rw [← hparts] at hf
    rcases List.mem_append.mp hf with htake | hdrop
    · exact absurd (List.mem_map_of_mem htake) hkept
    · exact ⟨f, hdrop, rfl⟩
  · rw [List.filter_comm, filter_touchEntry]
    refine (h.listed.filter _).trans (List.Perm.of_eq ?_)
    rw [← hparts, List.map_append, List.filter_append, List.filter_eq_nil_iff.mpr, List.filter_eq_self.mpr,
      List.nil_append, hparts]
    · intro e he
      obtain ⟨f, hf, rfl⟩ := List.mem_map.mp he
      exact Option.isSome_iff_exists.mpr ⟨_, hstays f hf⟩
    · intro e he hsome
      obtain ⟨f, hf, rfl⟩ := List.mem_map.mp he
      rw [show (backupEntry name f.1).1 = backupName name (epochSecs f.1) from rfl, hremoved f hf] at hsome
      cases hsome

/-- The backups by the times they were modified. -/
theorem mergeSort_backups {entries : List (String × Nat)} {made : List (Nat × B)}
    (hperm : entries.Perm (made.map fun f => backupEntry name f.1))
    (hsorted : made.Pairwise fun f g => epochSecs f.1 < epochSecs g.1) :
    (entries.mergeSort fun a b => a.2 ≤ b.2) = made.map fun f => backupEntry name f.1 := by
  have hmerged := (List.mergeSort_perm entries fun a b => a.2 ≤ b.2).trans hperm
  refine @List.Perm.eq_of_pairwise _ (fun a b => a.2 ≤ b.2) _ _ ?_ ?_ ?_ hmerged
  · intro a b ha hb hab hba
    obtain ⟨f, -, rfl⟩ := List.mem_map.mp (hmerged.mem_iff.mp ha)
    obtain ⟨g, -, rfl⟩ := List.mem_map.mp hb
    -- an entry is told by its time
    exact congrArg (backupEntry name) (Nat.le_antisymm hab hba)
  · have hmerge := @List.pairwise_mergeSort _ (fun a b : String × Nat => decide (a.2 ≤ b.2))
      (fun a b c hab hbc => decide_eq_true (Nat.le_trans (of_decide_eq_true hab) (of_decide_eq_true hbc)))
      (fun a b => by simpa using Nat.le_total a.2 b.2) entries
    exact hmerge.imp fun hab => of_decide_eq_true hab
  · rw [List.pairwise_map]
    refine hsorted.imp fun {f g} hlt => Nat.le_of_lt (Nat.lt_of_not_le fun hle => ?_)
    exact Nat.not_lt.mpr (Nat.div_le_div_right hle) hlt

section

variable (lib : FileLib B) {path : Path} (maxVersions : Nat) (call : SaveCall)

theorem save_eq (d : SaveDir B) (hname : path.fileName = some name) :
    ∃ files, d.save lib path maxVersions call = (.ok (), { files, entries :=
        (touchEntry name call.time (d.copied path call.time)).filter fun f => (files path.dir f.1).isSome }) ∧
      files path.dir name = some (call.store.content lib path) ∧
      ∀ n, isBackup name n = true → files path.dir n
        = (KvStore.backup lib { epoch := epochSecs call.time, listing := call.order (d.copied path call.time) }
            path.dir name maxVersions d.files).2 path.dir n := by
  obtain ⟨files, hsave, hcontent, hbackups⟩ := KvStore.saveWithVersion_quiet lib d.files
    (epochSecs call.time) (call.order (d.copied path call.time)) call.store hname maxVersions
  refine ⟨files, ?_, hcontent, hbackups⟩
  simp only [save, hsave, hname]

/-- The first save makes no backup. -/
theorem Holds.save_first (h : d.Holds path.dir name kept) (hname : path.fileName = some name)
    (hfile : d.files path.dir name = none) :
    (d.save lib path maxVersions call).1 = .ok () ∧
      (d.step lib path maxVersions call).files path.dir name = some (call.store.content lib path) ∧
      (d.step lib path maxVersions call).Holds path.dir name kept := by
  obtain ⟨files, hsave, hcontent, hbackups⟩ := save_eq lib maxVersions call d hname
  have hcopied : d.copied path call.time = d.entries := by
    simp only [copied, hname, hfile]
    rfl
  unfold step
  rw [hsave, hcopied]
  refine ⟨rfl, hcontent, h.prune (k := 0) fun n hn => ?_⟩
  rw [hbackups n hn, List.take_zero, KvStore.backup, hfile]
  exact (if_neg List.not_mem_nil).symm

/-- A later save makes a backup of what the file holds, and prunes. -/
theorem Holds.save_next (h : d.Holds path.dir name kept) (hname : path.fileName = some name) {b : B}
    (hfile : d.files path.dir name = some b) (hlate : ∀ f ∈ kept, f.1 ≤ call.time) :
    (d.save lib path maxVersions call).1 = .ok () ∧
      (d.step lib path maxVersions call).files path.dir name = some (call.store.content lib path) ∧
      (d.step lib path maxVersions call).Holds path.dir name
        (put (fun f => epochSecs f.1) maxVersions kept (call.time, b)) := by
  obtain ⟨files, hsave, hcontent, hbackups⟩ := save_eq lib maxVersions call d hname
  have hcopied : d.copied path call.time
      = touchEntry (backupName name (epochSecs call.time)) call.time d.entries := by
    simp only [copied, hname, hfile]
    rfl
  have hcopy := h.copy hlate b
  have hlisted := ((call.order_perm (d.copied path call.time)).filter fun f => isBackup name f.1).trans
    (hcopied ▸ hcopy.listed)
  have hmerged := mergeSort_backups hlisted hcopy.sorted
  unfold step
  rw [hsave, hcopied]
  refine ⟨rfl, hcontent, hcopy.prune fun n hn => ?_⟩
  rw [hbackups n hn, KvStore.backup, hfile]
  refine (KvStore.pruneBackups_eq (fun _ => rfl) path.dir n maxVersions _ _).trans ?_
  rw [show ((call.order (d.copied path call.time)).filter fun f =>
      (name ++ ".bak.").toList.isPrefixOf f.1.toList).mergeSort (fun a b => a.2 ≤ b.2)
      = (withBackup kept call.time b).map fun f => backupEntry name f.1 from hmerged, List.length_map]
  rfl

end

theorem Holds.holdsBackups_iff (h : d.Holds dir name kept) (contents : List B) :
    d.HoldsBackups dir name contents ↔ (kept.map Prod.snd).Perm contents := by
  have hnames : (kept.map fun f => backupName name (epochSecs f.1)).Nodup := by
    rw [List.Nodup, List.pairwise_map]
    exact h.sorted.imp fun hlt heq => Nat.ne_of_lt hlt (backupName_inj.mp heq)
  have hfirst : (kept.map fun f => (backupName name (epochSecs f.1), f.2)).map Prod.fst
      = kept.map fun f => backupName name (epochSecs f.1) := by
    rw [List.map_map]
    rfl
  have hsecond : (kept.map fun f => (backupName name (epochSecs f.1), f.2)).map Prod.snd
      = kept.map Prod.snd := by
    rw [List.map_map]
    rfl
  have hmem : ∀ n b, (n, b) ∈ kept.map (fun f => (backupName name (epochSecs f.1), f.2)) ↔
      isBackup name n = true ∧ d.files dir n = some b := by
    intro n b
    constructor
    · intro hin
      obtain ⟨f, hf, heq⟩ := List.mem_map.mp hin
      obtain ⟨rfl, rfl⟩ := Prod.mk.inj heq
      exact ⟨isBackup_backupName _ _, h.held f hf⟩
    · rintro ⟨hn, hfile⟩
      obtain ⟨f, hf, rfl⟩ := h.only n hn (by simp [hfile])
      rw [h.held f hf] at hfile
      exact List.mem_map.mpr ⟨f, hf, by rw [Option.some.inj hfile]⟩
  constructor
  · rintro ⟨backups, hnodup, hbackups, hcontents⟩
    have hsame : backups.Perm (kept.map fun f => (backupName name (epochSecs f.1), f.2)) := by
      rw [List.perm_ext_iff_of_nodup (hnodup.of_map Prod.fst)
        (List.Nodup.of_map Prod.fst (hfirst ▸ hnames))]
      exact fun f => (hbackups f.1 f.2).trans (hmem f.1 f.2).symm
    exact hsecond ▸ (hsame.map Prod.snd).symm.trans hcontents
  · intro hperm
    exact ⟨_, hfirst ▸ hnames, hmem, hsecond ▸ hperm⟩

/-! ## Runs of saves -/

/-- The backups that calls make of a file, each at its time. -/
def backupsMade (lib : FileLib B) (path : Path) : B → List SaveCall → List (Nat × B)
  | _, [] => []
  | b, call :: calls => (call.time, b) :: backupsMade lib path (call.store.content lib path) calls

theorem backupsMade_times (lib : FileLib B) (path : Path) (calls : List SaveCall) :
    ∀ b, (backupsMade lib path b calls).map Prod.fst = calls.map SaveCall.time := by
  induction calls with
  | nil => exact fun b => rfl
  | cons call calls ih => exact fun b => congrArg (call.time :: ·) (ih _)

theorem backupsMade_contents (lib : FileLib B) (path : Path) (calls : List SaveCall) :
    ∀ b, (backupsMade lib path b calls).map Prod.snd
      = (b :: calls.map fun call => call.store.content lib path).dropLast := by
  induction calls with
  | nil => exact fun b => rfl
  | cons call calls ih => exact fun b => congrArg (b :: ·) (ih _)

variable (lib : FileLib B) {path : Path} (maxVersions : Nat)

/-- A call in a directory succeeds. -/
def Succeeds (lib : FileLib B) (path : Path) (maxVersions : Nat) (d : SaveDir B) (call : SaveCall) : Prop :=
  (d.save lib path maxVersions call).1 = .ok ()

/-- The run lemma, from a directory with the file. -/
theorem holds_run (hname : path.fileName = some name) (calls : List SaveCall) :
    ∀ (d : SaveDir B) (kept : List (Nat × B)) (b : B), d.files path.dir name = some b →
      d.Holds path.dir name kept → (∀ f ∈ kept, ∀ call ∈ calls, f.1 ≤ call.time) →
      (calls.map SaveCall.time).Pairwise (· ≤ ·) →
      Guarded (step lib path maxVersions) (Succeeds lib path maxVersions) d calls ∧
        (calls.foldl (step lib path maxVersions) d).Holds path.dir name
          ((backupsMade lib path b calls).foldl (put (fun f => epochSecs f.1) maxVersions) kept) := by
  induction calls with
  | nil => exact fun d kept b _ h _ _ => ⟨trivial, h⟩
  | cons call calls ih =>
      intro d kept b hfile h hlate hsorted
      rw [List.map_cons, List.pairwise_cons] at hsorted
      obtain ⟨hnext, hrest⟩ := hsorted
      obtain ⟨hok, hcontent, hholds⟩ := h.save_next lib maxVersions call hname hfile
        fun f hf => hlate f hf call List.mem_cons_self
      obtain ⟨hguarded, hlast⟩ := ih _ _ _ hcontent hholds (fun f hf later hlater => by
        rcases List.mem_append.mp ((put_sublist kept (call.time, b)).subset hf) with hold | hnew
        · exact hlate f hold later (List.mem_cons_of_mem _ hlater)
        · rw [List.mem_singleton.mp hnew]
          exact hnext _ (List.mem_map_of_mem hlater)) hrest
      exact ⟨⟨hok, hguarded⟩, hlast⟩

/-- The backups that calls make where no file was before. -/
def allBackups (lib : FileLib B) (path : Path) : List SaveCall → List (Nat × B)
  | [] => []
  | call :: calls => backupsMade lib path (call.store.content lib path) calls

theorem allBackups_times (lib : FileLib B) (path : Path) (calls : List SaveCall) :
    (allBackups lib path calls).map Prod.fst = (calls.map SaveCall.time).tail := by
  cases calls with
  | nil => rfl
  | cons call calls => exact backupsMade_times lib path calls _

theorem allBackups_contents (lib : FileLib B) (path : Path) (calls : List SaveCall) :
    (allBackups lib path calls).map Prod.snd
      = (calls.map fun call => call.store.content lib path).dropLast := by
  cases calls with
  | nil => rfl
  | cons call calls => exact backupsMade_contents lib path calls _

theorem Fresh.holds_run (hfresh : d.Fresh path.dir name) (hname : path.fileName = some name)
    {calls : List SaveCall} (hsorted : (calls.map SaveCall.time).Pairwise (· ≤ ·)) :
    Guarded (step lib path maxVersions) (Succeeds lib path maxVersions) d calls ∧
      (calls.foldl (step lib path maxVersions) d).Holds path.dir name
        (Lib.Rotation.run (fun f => epochSecs f.1) maxVersions (allBackups lib path calls)) := by
  cases calls with
  | nil => exact ⟨trivial, hfresh.holds⟩
  | cons call calls =>
      obtain ⟨hok, hcontent, hholds⟩ := hfresh.holds.save_first lib maxVersions call hname
        hfresh.file
      obtain ⟨hguarded, hlast⟩ := SaveDir.holds_run lib maxVersions hname calls _ _ _ hcontent
        hholds (fun f hf => absurd hf List.not_mem_nil) (List.pairwise_cons.mp hsorted).2
      exact ⟨⟨hok, hguarded⟩, hlast⟩

/-- What is kept, told by the backups that were made. -/
theorem Fresh.keepsNewest_iff (hfresh : d.Fresh path.dir name) (hname : path.fileName = some name)
    {calls : List SaveCall} (hsorted : (calls.map SaveCall.time).Pairwise (· ≤ ·)) :
    KeepsNewest lib path name maxVersions d calls ↔
      ((Lib.Rotation.run (fun f => epochSecs f.1) maxVersions (allBackups lib path calls)).map Prod.snd).Perm
        (((allBackups lib path calls).rtake maxVersions).map Prod.snd) := by
  unfold KeepsNewest
  rw [(hfresh.holds_run lib maxVersions hname hsorted).2.holdsBackups_iff, map_rtake, allBackups_contents]

/-- The seconds of the backups that should be kept. -/
theorem newest_seconds (path : Path) (calls : List SaveCall) :
    ((allBackups lib path calls).rtake maxVersions).map (fun f => epochSecs f.1)
      = ((calls.map SaveCall.time).tail.rtake maxVersions).map epochSecs := by
  rw [← allBackups_times lib path, ← map_rtake, List.map_map]
  rfl

/-- Where no two calls save the same, what is kept tells in which second it was made. -/
theorem Fresh.keepsNewest_iff_nodup (hfresh : d.Fresh path.dir name) (hname : path.fileName = some name)
    {calls : List SaveCall} (hsorted : (calls.map SaveCall.time).Pairwise (· ≤ ·))
    (hcontents : (calls.map fun call => call.store.content lib path).Nodup) :
    KeepsNewest lib path name maxVersions d calls ↔
      (((calls.map SaveCall.time).tail.rtake maxVersions).map epochSecs).Nodup := by
  rw [hfresh.keepsNewest_iff lib maxVersions hname hsorted, ← newest_seconds lib maxVersions path]
  refine run_perm_iff ?_
  rw [allBackups_contents]
  exact hcontents.sublist (List.dropLast_sublist _)

end SaveDir

/-! ## The newest versions -/

/-- An empty store after so many writes. -/
def writtenStore (n : Nat) : KvStore := { KvStore.new with stats := { totalWrites := n } }

/-- Their files are different, as they load differently. -/
theorem writtenStore_content_inj {lib : FileLib B} (hlib : lib.Documented) {path : Path} {name : String}
    (hname : path.fileName = some name) {n k : Nat}
    (h : (writtenStore n).content lib path = (writtenStore k).content lib path) : n = k := by
  have hnone : ∀ n, (writtenStore n).store.toList = [] := fun n => by
    simp [writtenStore, KvStore.new, KvStore.withConfig]
  have hsavable : ∀ n, (writtenStore n).Savable lib.toSerializer := fun n p hp => by
    rw [hnone n] at hp
    cases hp
  have hfloatless : ∀ n, (writtenStore n).Floatless lib.toSerializer := fun n p hp => by
    rw [hnone n] at hp
    cases hp
  have hload : ∀ n, ∃ loaded, KvStore.loadFromFile lib path
      (fun _ _ => some ((writtenStore n).content lib path)) = .ok loaded ∧ loaded.stats.totalWrites = n := by
    intro n
    have hread : Files.read (fun _ _ => some ((writtenStore n).content lib path)) path
        = some ((writtenStore n).content lib path) := Files.read_eq _ hname
    rcases KvStore.loadFromFile_packed hlib (.inl (hfloatless n)) hread with ⟨-, hok⟩ | ⟨hnot, -⟩
    · exact ⟨_, hok, rfl⟩
    · exact absurd (hsavable n) hnot
  obtain ⟨loaded, hok, hwrites⟩ := hload n
  obtain ⟨loaded', hok', hwrites'⟩ := hload k
  rw [h, hok', Except.ok.injEq] at hok
  rw [← hwrites, ← hwrites', hok]

/-- A call at each of these times, each of another store. -/
def callsAt (times : List Nat) : List SaveCall :=
  times.zipIdx.map fun p => ⟨writtenStore p.2, p.1, id, fun _ => .refl _⟩

theorem callsAt_times (times : List Nat) : (callsAt times).map SaveCall.time = times := by
  rw [callsAt, List.map_map]
  exact List.zipIdx_map_fst 0 times

theorem callsAt_contents_nodup {lib : FileLib B} (hlib : lib.Documented) {path : Path} {name : String}
    (hname : path.fileName = some name) (times : List Nat) :
    ((callsAt times).map fun call => call.store.content lib path).Nodup := by
  have hindex : (times.zipIdx.map Prod.snd).Nodup := by
    rw [List.zipIdx_map_snd]
    exact List.nodup_range'
  rw [callsAt, List.map_map, List.Nodup, List.pairwise_map]
  rw [List.Nodup, List.pairwise_map] at hindex
  exact hindex.imp fun hne heq => hne (writtenStore_content_inj hlib hname heq)

/-- For every number of calls at any times that do not go back, from a directory without the file and
its backups: every call succeeds, and whatever they save the backups hold what the last `max_versions`
calls before the last one saved, if and only if no two of these backups are made in one second. -/
theorem backups_keep_newest_iff {lib : FileLib B} (hlib : lib.Documented) {path : Path} {name : String}
    (hname : path.fileName = some name) (maxVersions : Nat) {d : SaveDir B} (hfresh : d.Fresh path.dir name)
    {times : List Nat} (hsorted : times.Pairwise (· ≤ ·)) :
    (∀ calls : List SaveCall, calls.map SaveCall.time = times →
      Guarded (SaveDir.step lib path maxVersions) (SaveDir.Succeeds lib path maxVersions) d calls) ∧
    ((∀ calls : List SaveCall, calls.map SaveCall.time = times →
        KeepsNewest lib path name maxVersions d calls) ↔
      ((times.tail.rtake maxVersions).map epochSecs).Nodup) := by
  refine ⟨fun calls htimes => ?_, fun hkeeps => ?_, fun hseconds calls htimes => ?_⟩
  · exact (hfresh.holds_run lib maxVersions hname (htimes ▸ hsorted)).1
  · -- stores of which no two have the same file show what was lost
    have htimes := callsAt_times times
    have hnodup := (hfresh.keepsNewest_iff_nodup lib maxVersions hname (htimes.symm ▸ hsorted)
      (callsAt_contents_nodup hlib hname times)).mp (hkeeps _ htimes)
    rwa [htimes] at hnodup
  · rw [hfresh.keepsNewest_iff lib maxVersions hname (htimes.symm ▸ hsorted), run_eq_rtake]
    rw [SaveDir.newest_seconds, htimes]
    exact hseconds

/-- An empty directory. -/
def emptySaveDir : SaveDir Contents := ⟨fun _ _ => none, []⟩

theorem emptySaveDir_fresh (dir name : String) : emptySaveDir.Fresh dir name :=
  ⟨rfl, fun _ _ => ⟨rfl, fun _ => List.not_mem_nil⟩⟩

/-- Five saves, the third in the second of the second one: the two backups of the last two are there. -/
theorem backups_keep_newest_iff_five :
    KeepsNewest .symbolic storeJson "store.json" 2 emptySaveDir
      (callsAt [1000000000, 2000000000, 2010000000, 3500000000, 4000000000]) :=
  (backups_keep_newest_iff FileLib.symbolic_documented rfl 2 (emptySaveDir_fresh "." "store.json")
    (by decide)).2.mpr (by decide) _ (callsAt_times _)

/-- Three saves ten milliseconds apart, with two backups to be kept: the backup of the first is
overwritten by that of the second. -/
theorem backup_of_same_second_lost :
    let calls := callsAt [1000000000, 1010000000, 1020000000]
    let d := calls.foldl (SaveDir.step .symbolic storeJson 2) emptySaveDir
    Guarded (SaveDir.step .symbolic storeJson 2) (SaveDir.Succeeds .symbolic storeJson 2) emptySaveDir calls ∧
      (∀ n, isBackup "store.json" n = true → d.files "." n ≠ none → n = "store.json.bak.1") ∧
      d.files "." "store.json.bak.1" = some ((writtenStore 1).content .symbolic storeJson) ∧
      ¬ KeepsNewest .symbolic storeJson "store.json" 2 emptySaveDir calls := by
  intro calls d
  have hfresh := emptySaveDir_fresh "." "store.json"
  have hsorted : (calls.map SaveCall.time).Pairwise (· ≤ ·) := by decide
  have hname : storeJson.fileName = some "store.json" := rfl
  obtain ⟨hok, hholds⟩ := hfresh.holds_run .symbolic 2 hname hsorted
  have hkept : Lib.Rotation.run (fun f => epochSecs f.1) 2 (SaveDir.allBackups .symbolic storeJson calls)
      = [(1020000000, (writtenStore 1).content .symbolic storeJson)] := rfl
  rw [hkept] at hholds
  refine ⟨hok, fun n hn hfile => ?_, hholds.held _ (List.mem_singleton_self _), fun hkeeps => ?_⟩
  · obtain ⟨f, hf, rfl⟩ := hholds.only n hn hfile
    rw [List.mem_singleton.mp hf]
    rfl
  · have hnodup := (hfresh.keepsNewest_iff_nodup .symbolic 2 hname hsorted
      (callsAt_contents_nodup FileLib.symbolic_documented rfl _)).mp hkeeps
    revert hnodup
    decide

end Daikon
