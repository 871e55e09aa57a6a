/-
# Daikon.Pitr.Cleanup -- which snapshots a clean-up removes (`pitr.rs`)

A snapshot is named after the nanosecond of its creation, or what is left of it in 64 bits, and a number
where the name is taken; the name is read back as it was written (`extract_snapshotFilename`).
`cleanup_old_snapshots` compares it with a cutoff in seconds. So what it removes is what is old enough
only if each snapshot is on the same side of both measures (`cleanup_honours_age_iff`), and of those
made after the first seconds of 1970 it removes none (`cleanup_removes_nothing`).

The names are worked out from the text, character by character: a prefix, the time stamp in decimals, a
counter where it was needed, and the suffixes of compression and encryption. Reading strips them in the same
order, so `extract_snapshotName` needs only that no suffix is the end of another.

`Dated` is the invariant of a directory that creations and clean-ups leave: every file has the name that its
creation gave it. With it the clean-up is a filter of the directory (`cleanupLoop_ok`) in the order in which
the listing happens to give the files, and an error ends it in the middle (`cleanupLoop_error`). `Old` is
what the comment of the source says, and `doomed` what its code does.
-/
import Daikon.Lib.Run
import Daikon.Pitr.Snapshot
import Daikon.Store.Decimal
import Mathlib.Data.List.TakeWhile

namespace Daikon

/-! ## Names -/

section

variable {pre suf : String} {xs : List Char}

theorem stripSuffix_append : stripSuffix suf (String.ofList (xs ++ suf.toList)) = some (String.ofList xs) := by
  unfold stripSuffix
  rw [String.toList_ofList, String.length_ofList, if_pos (by simp), List.length_append,
    String.length_toList, Nat.add_sub_cancel, List.take_left]

theorem stripPrefix_append : stripPrefix pre (String.ofList (pre.toList ++ xs)) = some (String.ofList xs) := by
  unfold stripPrefix
  rw [String.toList_ofList, if_pos (by simp), ← String.length_toList, List.drop_left]

/-- The last characters tell. -/
theorem stripSuffix_none {s : String} {c d : Char} (hs : s.toList.getLast? = some c)
    (hsuf : suf.toList.getLast? = some d) (hne : c ≠ d) : stripSuffix suf s = none := by
  unfold stripSuffix
  rw [if_neg]
  intro hsuffix
  obtain ⟨front, hfront⟩ := List.isSuffixOf_iff_suffix.mp hsuffix
  rw [← hfront, List.getLast?_append, hsuf] at hs
  exact hne (Option.some.inj hs).symm

end

/-- The text between the prefix and the extension of a snapshot's name. -/
def snapshotCore (timestamp : Nat) : Option Nat → List Char
  | none => (toString timestamp).toList
  | some suffix => (toString timestamp).toList ++ '_' :: (toString suffix).toList

theorem parseU64_toString {n : Nat} (h : n < 2 ^ 64) : parseU64 (toString n) = some n := by
  have htext : (toString n).toList = Nat.toDigits 10 n := Nat.toList_repr
  obtain ⟨c, ds, hcons, -, hplus⟩ := toDigits_cases n
  unfold parseU64
  rw [htext]
  split
  · next rest heq =>
      -- a number does not begin with a plus
      rw [hcons] at heq
      exact absurd (List.cons.inj heq).1 hplus
  · rw [parseDigits_toDigits]
    exact if_pos h

theorem takeWhile_snapshotCore (timestamp : Nat) (suffix : Option Nat) :
    (snapshotCore timestamp suffix).takeWhile (· ≠ '_') = (toString timestamp).toList := by
  have hdigits : ∀ c ∈ (toString timestamp).toList, (decide (c ≠ '_')) = true := by
    intro c hc
    have hdigit : c.isDigit = true :=
      Nat.isDigit_of_mem_toDigits (by decide) (by decide) (Nat.toList_repr (n := timestamp) ▸ hc)
    refine decide_eq_true ?_
    rintro rfl
    exact absurd hdigit (by decide)
  cases suffix with
  | none => exact List.takeWhile_eq_self_iff.mpr hdigits
  | some suffix =>
      unfold snapshotCore
      rw [List.takeWhile_append_of_pos hdigits]
      simp

/-- The name of a snapshot. -/
def snapshotName (timestamp : Nat) (suffix : Option Nat) (extension : String) : String :=
  String.ofList ("snapshot_".toList ++ (snapshotCore timestamp suffix ++ extension.toList))

/-- Stripping the last part of an extension. -/
theorem stripSuffix_encrypted (xs : List Char) (compression : SnapshotCompression) (enabled : Bool) :
    (stripSuffix ".enc" (String.ofList (xs ++ (compression.encryptedSuffix enabled).toList))).getD
        (String.ofList (xs ++ (compression.encryptedSuffix enabled).toList))
      = String.ofList (xs ++ compression.fileSuffix.toList) := by
  cases enabled with
  | true =>
      unfold SnapshotCompression.encryptedSuffix
      rw [if_pos rfl, String.toList_append, ← List.append_assoc, stripSuffix_append]
      rfl
  | false =>
      unfold SnapshotCompression.encryptedSuffix
      rw [if_neg Bool.false_ne_true]
      -- none of the three ends in a `c`
      have hnone : stripSuffix ".enc" (String.ofList (xs ++ compression.fileSuffix.toList)) = none := by
        cases compression with
        | none =>
            exact stripSuffix_none (c := 'n') (d := 'c') (by simp [SnapshotCompression.fileSuffix])
              (by decide) (by decide)
        | gzip =>
            exact stripSuffix_none (c := 'z') (d := 'c') (by simp [SnapshotCompression.fileSuffix])
              (by decide) (by decide)
        | zstd =>
            exact stripSuffix_none (c := 't') (d := 'c') (by simp [SnapshotCompression.fileSuffix])
              (by decide) (by decide)
      rw [hnone]
      rfl

/-- Of the three extensions, the one that was written is found. -/
theorem stripSuffix_fileSuffix (xs : List Char) (compression : SnapshotCompression) :
    ((stripSuffix ".json" (String.ofList (xs ++ compression.fileSuffix.toList))).or
      (stripSuffix ".json.gz" (String.ofList (xs ++ compression.fileSuffix.toList)))).or
        (stripSuffix ".json.zst" (String.ofList (xs ++ compression.fileSuffix.toList)))
      = some (String.ofList xs) := by
  cases compression with
  | none =>
      rw [SnapshotCompression.fileSuffix, stripSuffix_append]
      rfl
  | gzip =>
      have hjson : stripSuffix ".json" (String.ofList (xs ++ ".json.gz".toList)) = none :=
        stripSuffix_none (c := 'z') (d := 'n') (by simp) (by decide) (by decide)
      rw [SnapshotCompression.fileSuffix, hjson, stripSuffix_append]
      rfl
  | zstd =>
      have hjson : stripSuffix ".json" (String.ofList (xs ++ ".json.zst".toList)) = none :=
        stripSuffix_none (c := 't') (d := 'n') (by simp) (by decide) (by decide)
      have hgz : stripSuffix ".json.gz" (String.ofList (xs ++ ".json.zst".toList)) = none :=
        stripSuffix_none (c := 't') (d := 'z') (by simp) (by decide) (by decide)
      rw [SnapshotCompression.fileSuffix, hjson, hgz, stripSuffix_append]
      rfl

/-- The time stamp is read back from the name. -/
theorem extract_snapshotName {timestamp : Nat} (h : timestamp < 2 ^ 64) (suffix : Option Nat)
    (compression : SnapshotCompression) (enabled : Bool) :
    extractSnapshotTimestamp (snapshotName timestamp suffix (compression.encryptedSuffix enabled))
      = some timestamp := by
  unfold extractSnapshotTimestamp snapshotName
  simp only [← List.append_assoc, stripSuffix_encrypted]
  simp only [List.append_assoc, stripPrefix_append, Option.bind_some, stripSuffix_fileSuffix,
    String.toList_ofList, takeWhile_snapshotCore, String.ofList_toList]
  exact parseU64_toString h

namespace Pitr

theorem snapshotName_none (timestamp : Nat) (extension : String) :
    s!"snapshot_{timestamp}{extension}" = snapshotName timestamp none extension := by
  apply String.toList_inj.mp
  unfold snapshotName
  rw [String.toList_ofList, String.toList_append, String.toList_append, List.append_assoc]
  rfl

theorem snapshotName_some (timestamp suffix : Nat) (extension : String) :
    s!"snapshot_{timestamp}_{suffix}{extension}" = snapshotName timestamp (some suffix) extension := by
  apply String.toList_inj.mp
  unfold snapshotName snapshotCore
  rw [String.toList_ofList, String.toList_append, String.toList_append, String.toList_append,
    String.toList_append, List.append_assoc, List.append_assoc, List.append_assoc, List.append_assoc]
  rfl

theorem snapshotName_inj {timestamp m n : Nat} {extension : String}
    (h : snapshotName timestamp (some m) extension = snapshotName timestamp (some n) extension) :
    m = n := by
  have hlist := String.ofList_injective h
  rw [List.append_cancel_left_eq, List.append_cancel_right_eq] at hlist
  unfold snapshotCore at hlist
  rw [List.append_cancel_left_eq, List.cons_eq_cons] at hlist
  have hdigits : Nat.toDigits 10 m = Nat.toDigits 10 n :=
    Nat.toList_repr.symm.trans (hlist.2.trans Nat.toList_repr)
  have hparse := congrArg parseDigits hdigits
  rw [parseDigits_toDigits, parseDigits_toDigits] at hparse
  exact Option.some.inj hparse

section

variable (names : List String) (timestamp : Nat) (extension : String)

theorem freshName_eq (fuel : Nat) : ∀ suffix,
    ∃ n, freshName names timestamp extension fuel suffix = snapshotName timestamp (some n) extension := by
  induction fuel with
  | zero => exact fun suffix => ⟨suffix, snapshotName_some _ _ _⟩
  | succ fuel ih =>
      intro suffix
      unfold freshName
      simp only
      split
      · exact ih (suffix + 1)
      · exact ⟨suffix, snapshotName_some _ _ _⟩

/-- A taken name at the end of the search means that all were taken. -/
theorem taken_of_freshName (fuel : Nat) : ∀ suffix,
    freshName names timestamp extension fuel suffix ∈ names →
      ∀ k ≤ fuel, snapshotName timestamp (some (suffix + k)) extension ∈ names := by
  induction fuel with
  | zero =>
      intro suffix h k hk
      rw [Nat.le_zero.mp hk, ← snapshotName_some]
      exact h
  | succ fuel ih =>
      intro suffix h k hk
      unfold freshName at h
      simp only at h
      split at h
      · next htaken =>
          rcases Nat.eq_zero_or_pos k with rfl | hpos
          · rw [← snapshotName_some]
            exact htaken
          · have hnext := ih (suffix + 1) h (k - 1) (by omega)
            rwa [show suffix + 1 + (k - 1) = suffix + k by omega] at hnext
      · next hfree => exact absurd h hfree

/-- There are more candidates than names. -/
theorem freshName_not_mem : freshName names timestamp extension names.length 1 ∉ names := by
  intro h
  have hall := taken_of_freshName names timestamp extension names.length 1 h
  have hnodup : ((List.range (names.length + 1)).map fun k =>
      snapshotName timestamp (some (1 + k)) extension).Nodup :=
    List.Nodup.map (fun a b hab => Nat.add_left_cancel (snapshotName_inj hab)) List.nodup_range
  have hsub : ((List.range (names.length + 1)).map fun k =>
      snapshotName timestamp (some (1 + k)) extension) ⊆ names := by
    intro name hname
    obtain ⟨k, hk, rfl⟩ := List.mem_map.mp hname
    exact hall k (by have := List.mem_range.mp hk; omega)
  have hlength := (List.Nodup.subperm hnodup hsub).length_le
  rw [List.length_map, List.length_range] at hlength
  omega

theorem snapshotFilename_not_mem : snapshotFilename names timestamp extension ∉ names := by
  unfold snapshotFilename
  simp only
  split
  · exact freshName_not_mem names timestamp extension
  · next hfree => exact hfree

theorem snapshotFilename_eq :
    ∃ suffix, snapshotFilename names timestamp extension = snapshotName timestamp suffix extension := by
  unfold snapshotFilename
  simp only
  split
  · obtain ⟨n, hn⟩ := freshName_eq names timestamp extension names.length 1
    exact ⟨some n, hn⟩
  · exact ⟨none, snapshotName_none timestamp extension⟩

end

/-- The time stamp of a new snapshot is read back from its name. -/
theorem extract_snapshotFilename (names : List String) {timestamp : Nat} (h : timestamp < 2 ^ 64)
    (compression : SnapshotCompression) (enabled : Bool) :
    extractSnapshotTimestamp (snapshotFilename names timestamp (compression.encryptedSuffix enabled))
      = some timestamp := by
  obtain ⟨suffix, hname⟩ := snapshotFilename_eq names timestamp (compression.encryptedSuffix enabled)
  rw [hname]
  exact extract_snapshotName h suffix compression enabled

/-- A creation leaves its file, whole or in part, under a name that was free, or nothing. -/
theorem createSnapshot_files (c : SnapshotCodec) (io : SnapshotIo) (dir : List SnapshotFile)
    (wal : List WalEntry) (store : KvStore) :
    (createSnapshot c io dir wal store).2 = dir ∨
      ∃ bytes, (createSnapshot c io dir wal store).2 = dir ++
        [⟨snapshotFilename (dir.map SnapshotFile.name) (io.nanos % 2 ^ 64)
          (c.compression.encryptedSuffix c.enabled), bytes, wal.length⟩] := by
  unfold createSnapshot
  cases c.encode io.nonce store with
  | error e => exact .inl rfl
  | ok bytes =>
      cases io.write with
      | none => cases io.readAll <;> exact .inr ⟨bytes, rfl⟩
      | some failure =>
          obtain ⟨e, left⟩ := failure
          cases left with
          | none => exact .inl (List.append_nil dir)
          | some part => exact .inr ⟨part, rfl⟩

/-! ## The clean-up loop -/

/-- The time stamp of the name is below the cutoff. -/
def doomed (cutoff : Nat) (file : SnapshotFile) : Bool :=
  (extractSnapshotTimestamp file.name).any (· < cutoff)

section

variable {cutoff : Nat} {removeFile : String → Option KvStoreError}

theorem cleanupLoop_cons (file : SnapshotFile) (files : List SnapshotFile) (deleted : Nat)
    (dir : List SnapshotFile) : cleanupLoop cutoff removeFile (file :: files) deleted dir
      = if doomed cutoff file then
          match removeFile file.name with
          | some e => (.error e, dir)
          | none => cleanupLoop cutoff removeFile files (deleted + 1) (dir.filter (·.name ≠ file.name))
        else cleanupLoop cutoff removeFile files deleted dir := by
  show (match extractSnapshotTimestamp file.name with
    | none => cleanupLoop cutoff removeFile files deleted dir
    | some timestamp =>
        if timestamp < cutoff then
          match removeFile file.name with
          | some e => (.error e, dir)
          | none => cleanupLoop cutoff removeFile files (deleted + 1) (dir.filter (·.name ≠ file.name))
        else cleanupLoop cutoff removeFile files deleted dir) = _
  unfold doomed
  cases extractSnapshotTimestamp file.name with
  | none => rfl
  | some timestamp => simp only [Option.any_some, decide_eq_true_eq]

theorem cleanupLoop_sublist (files : List SnapshotFile) : ∀ deleted dir,
    (cleanupLoop cutoff removeFile files deleted dir).2.Sublist dir := by
  induction files with
  | nil => exact fun _ dir => List.Sublist.refl dir
  | cons file files ih =>
      intro deleted dir
      rw [cleanupLoop_cons]
      split
      · split
        · exact List.Sublist.refl dir
        · exact (ih _ _).trans List.filter_sublist
      · exact ih deleted dir

/-- If all that is below the cutoff can be removed, it is, and it is counted. -/
theorem cleanupLoop_ok (files : List SnapshotFile) : ∀ deleted dir,
    (∀ file ∈ files, doomed cutoff file → removeFile file.name = none) →
    cleanupLoop cutoff removeFile files deleted dir = (.ok (deleted + files.countP (doomed cutoff)),
      dir.filter fun f => f.name ∉ (files.filter (doomed cutoff)).map SnapshotFile.name) := by
  induction files with
  | nil =>
      intro deleted dir _
      show (Except.ok deleted, dir) = _
      simp
  | cons file files ih =>
      intro deleted dir hremove
      have hrest := fun f hf => hremove f (List.mem_cons_of_mem file hf)
      rw [cleanupLoop_cons]
      by_cases hdoomed : doomed cutoff file = true
      · rw [if_pos hdoomed, hremove file List.mem_cons_self hdoomed]
        simp only
        rw [ih _ _ hrest, List.countP_cons_of_pos hdoomed, List.filter_cons_of_pos hdoomed,
          List.filter_filter]
        refine Prod.ext (congrArg Except.ok (by omega)) (List.filter_congr fun f _ => ?_)
        rw [List.map_cons]
        simp only [List.mem_cons, not_or, Bool.decide_and, ne_eq, decide_not]
        rw [Bool.and_comm]
      · rw [if_neg hdoomed, ih _ _ hrest, List.countP_cons_of_neg hdoomed,
          List.filter_cons_of_neg hdoomed]

/-- Otherwise the call fails. -/
theorem cleanupLoop_error (files : List SnapshotFile) : ∀ deleted dir,
    (∃ file ∈ files, doomed cutoff file = true ∧ removeFile file.name ≠ none) →
    ∃ e, (cleanupLoop cutoff removeFile files deleted dir).1 = .error e := by
  induction files with
  | nil => rintro _ _ ⟨file, hfile, -⟩; exact absurd hfile List.not_mem_nil
  | cons file files ih =>
      rintro deleted dir ⟨stuck, hstuck, hdoomed, hremove⟩
      rw [cleanupLoop_cons]
      split
      · split
        · next e _ => exact ⟨e, rfl⟩
        · next hnone =>
            rcases List.mem_cons.mp hstuck with rfl | hrest
            · exact absurd hnone hremove
            · exact ih _ _ ⟨stuck, hrest, hdoomed, hremove⟩
      · next hnot =>
          rcases List.mem_cons.mp hstuck with rfl | hrest
          · exact absurd hdoomed hnot
          · exact ih _ _ ⟨stuck, hrest, hdoomed, hremove⟩

/-- Over a listing of the directory, the loop removes what is below the cutoff and nothing else. -/
theorem cleanupLoop_listing {files dir : List SnapshotFile} (hperm : files.Perm dir)
    (hnames : (dir.map SnapshotFile.name).Nodup)
    (hremove : ∀ file ∈ dir, doomed cutoff file → removeFile file.name = none) :
    cleanupLoop cutoff removeFile files 0 dir
      = (.ok (dir.countP (doomed cutoff)), dir.filter fun f => !doomed cutoff f) := by
  rw [cleanupLoop_ok files 0 dir fun f hf => hremove f (hperm.mem_iff.mp hf), Nat.zero_add,
    hperm.countP_eq]
  refine Prod.ext rfl (List.filter_congr fun f hf => ?_)
  have hiff : f.name ∈ (files.filter (doomed cutoff)).map SnapshotFile.name ↔ doomed cutoff f = true := by
    constructor
    · intro hmem
      obtain ⟨g, hg, hname⟩ := List.mem_map.mp hmem
      obtain ⟨hfiles, hdoomed⟩ := List.mem_filter.mp hg
      rw [← List.inj_on_of_nodup_map hnames (hperm.mem_iff.mp hfiles) hf hname]
      exact hdoomed
    · intro hdoomed
      exact List.mem_map_of_mem (List.mem_filter.mpr ⟨hperm.mem_iff.mpr hf, hdoomed⟩)
  simp only [hiff]
  cases doomed cutoff f <;> rfl

end

end Pitr

/-! ## Runs of creations and clean-ups -/

/-- The directory of the snapshots. -/
structure SnapshotDir where
  files : List SnapshotFile := []
  /-- History: when, in nanoseconds, the last file of this name was made. -/
  createdAt : String → Nat := fun _ => 0

/-- The making of a snapshot, or a clean-up. -/
inductive SnapshotStep where
  | create (c : SnapshotCodec) (io : SnapshotIo) (wal : List WalEntry) (store : KvStore)
  | cleanup (now maxAgeSecs : Nat) (listing : Except KvStoreError (List SnapshotFile))
      (removeFile : String → Option KvStoreError)

namespace SnapshotDir

/-- What it does to the directory. The time at which a file is made is noted under its name. -/
def step (d : SnapshotDir) : SnapshotStep → SnapshotDir
  | .create c io wal store =>
      let name := Pitr.snapshotFilename (d.files.map SnapshotFile.name) (io.nanos % 2 ^ 64)
        (c.compression.encryptedSuffix c.enabled)
      { files := (Pitr.createSnapshot c io d.files wal store).2
        createdAt := Function.update d.createdAt name io.nanos }
  | .cleanup now maxAgeSecs listing removeFile =>
      { d with files := (Pitr.cleanupOldSnapshots now maxAgeSecs listing removeFile d.files).2 }

/-- No two files have one name, and every name tells the instant of its creation, as far as 64 bits
hold it. -/
structure Dated (d : SnapshotDir) : Prop where
  names : (d.files.map SnapshotFile.name).Nodup
  stamps : ∀ f ∈ d.files, extractSnapshotTimestamp f.name = some (d.createdAt f.name % 2 ^ 64)

theorem dated_empty : ({} : SnapshotDir).Dated :=
  ⟨List.nodup_nil, fun _ hf => absurd hf List.not_mem_nil⟩

theorem Dated.sublist {d : SnapshotDir} (h : d.Dated) {files : List SnapshotFile}
    (hsub : files.Sublist d.files) : ({ d with files } : SnapshotDir).Dated :=
  ⟨h.names.sublist (hsub.map _), fun f hf => h.stamps f (hsub.subset hf)⟩

theorem step_dated {d : SnapshotDir} (h : d.Dated) (a : SnapshotStep) : (d.step a).Dated := by
  cases a with
  | create c io wal store =>
      have hfree := Pitr.snapshotFilename_not_mem (d.files.map SnapshotFile.name) (io.nanos % 2 ^ 64)
        (c.compression.encryptedSuffix c.enabled)
      have hstamp := Pitr.extract_snapshotFilename (d.files.map SnapshotFile.name)
        (Nat.mod_lt io.nanos (by decide : 0 < 2 ^ 64)) c.compression c.enabled
      unfold step
      simp only
      generalize hname : Pitr.snapshotFilename (d.files.map SnapshotFile.name) (io.nanos % 2 ^ 64)
        (c.compression.encryptedSuffix c.enabled) = name at hfree hstamp ⊢
      -- the name was free, so the files that are there keep their instants
      have hold : ∀ f ∈ d.files, extractSnapshotTimestamp f.name
          = some (Function.update d.createdAt name io.nanos f.name % 2 ^ 64) := by
        intro f hf
        have hne : f.name ≠ name := by
          rintro rfl
          exact hfree (List.mem_map_of_mem hf)
        rw [Function.update_of_ne hne]
        exact h.stamps f hf
      rcases Pitr.createSnapshot_files c io d.files wal store with hfiles | ⟨bytes, hfiles⟩
      · rw [hfiles]
        exact ⟨h.names, hold⟩
      · rw [hfiles, hname]
        refine ⟨?_, fun f hf => ?_⟩
        · rw [List.map_append]
          refine List.nodup_append.mpr ⟨h.names, List.nodup_singleton _, ?_⟩
          rintro a ha b hb rfl
          have hname : a = name := List.mem_singleton.mp hb
          exact hfree (hname ▸ ha)
        · rcases List.mem_append.mp hf with hf | hf
          · exact hold f hf
          · rw [List.mem_singleton.mp hf]
            simp only [Function.update_self]
            exact hstamp
  | cleanup now maxAgeSecs listing removeFile =>
      refine h.sublist ?_
      cases listing with
      | error e => exact List.Sublist.refl _
      | ok files => exact Pitr.cleanupLoop_sublist files 0 d.files

theorem run_dated (steps : List SnapshotStep) : (steps.foldl step {}).Dated :=
  Lib.Run.foldl_of_step Dated (fun _ a h => step_dated h a) dated_empty steps

/-! ## Age -/

/-- Made more than `maxAgeSecs` seconds ago. Both instants are in nanoseconds. -/
def Old (now maxAgeSecs createdAt : Nat) : Prop := createdAt + maxAgeSecs * 10 ^ 9 < now

instance (now maxAgeSecs createdAt : Nat) : Decidable (Old now maxAgeSecs createdAt) :=
  inferInstanceAs (Decidable (_ < _))

/-- The old snapshots are removed and counted, and the others are kept. -/
structure HonoursAge (d : SnapshotDir) (now maxAgeSecs : Nat)
    (r : Except KvStoreError Nat × List SnapshotFile) : Prop where
  answer : r.1 = .ok (d.files.countP fun f => Old now maxAgeSecs (d.createdAt f.name))
  files : r.2 = d.files.filter fun f => ¬ Old now maxAgeSecs (d.createdAt f.name)

/-- An old snapshot was made in the first nanoseconds of 1970, no more of them than the cutoff has
seconds, and it can be removed; no other snapshot was. -/
def BothMeasures (now maxAgeSecs createdAt : Nat) (removable : Bool) : Prop :=
  if Old now maxAgeSecs createdAt then createdAt % 2 ^ 64 < now / 10 ^ 9 - maxAgeSecs ∧ removable
  else now / 10 ^ 9 - maxAgeSecs ≤ createdAt % 2 ^ 64

instance (now maxAgeSecs createdAt : Nat) (removable : Bool) :
    Decidable (BothMeasures now maxAgeSecs createdAt removable) :=
  inferInstanceAs (Decidable (ite _ _ _))

theorem doomed_iff {d : SnapshotDir} (h : d.Dated) (cutoff : Nat) {f : SnapshotFile}
    (hf : f ∈ d.files) : Pitr.doomed cutoff f = true ↔ d.createdAt f.name % 2 ^ 64 < cutoff := by
  unfold Pitr.doomed
  rw [h.stamps f hf, Option.any_some, decide_eq_true_eq]

/-- In every directory that creations and clean-ups have left, a clean-up honours the age if and only if
the directory can be listed and every snapshot is on one side by both measures. -/
theorem cleanup_honours_age_iff (steps : List SnapshotStep) (now maxAgeSecs : Nat)
    (listing : Except KvStoreError (List SnapshotFile)) (removeFile : String → Option KvStoreError)
    (hlisting : ∀ files, listing = .ok files → files.Perm (steps.foldl step {}).files) :
    HonoursAge (steps.foldl step {}) now maxAgeSecs
        (Pitr.cleanupOldSnapshots (now / 10 ^ 9) maxAgeSecs listing removeFile
          (steps.foldl step {}).files) ↔
      listing.isOk ∧ ∀ f ∈ (steps.foldl step {}).files, BothMeasures now maxAgeSecs
        ((steps.foldl step {}).createdAt f.name) (removeFile f.name).isNone := by
  have h := run_dated steps
  generalize steps.foldl step {} = d at h hlisting ⊢
  cases listing with
  | error e => exact iff_of_false (fun hh => by cases hh.answer) (fun hh => by cases hh.1)
  | ok files =>
      have hperm := hlisting files rfl
      show HonoursAge d now maxAgeSecs
        (Pitr.cleanupLoop (now / 10 ^ 9 - maxAgeSecs) removeFile files 0 d.files) ↔ _
      generalize hcutoff : now / 10 ^ 9 - maxAgeSecs = cutoff
      have hmeasures : ∀ f ∈ d.files, BothMeasures now maxAgeSecs (d.createdAt f.name)
          (removeFile f.name).isNone ↔
            (Pitr.doomed cutoff f = true ↔ Old now maxAgeSecs (d.createdAt f.name)) ∧
              (Pitr.doomed cutoff f = true → removeFile f.name = none) := by
        intro f hf
        unfold BothMeasures
        rw [hcutoff, doomed_iff h cutoff hf, Option.isNone_iff_eq_none]
        split
        · next hold => simp [hold]; tauto
        · next hyoung => simp [hyoung]; omega
      constructor
      · intro hh
        have hremove : ∀ f ∈ d.files, Pitr.doomed cutoff f = true → removeFile f.name = none := by
          intro f hf hdoomed
          by_contra hstuck
          obtain ⟨e, he⟩ := Pitr.cleanupLoop_error files 0 d.files
            ⟨f, hperm.mem_iff.mpr hf, hdoomed, hstuck⟩
          rw [hh.answer] at he
          cases he
        have hfiles := hh.files
        rw [Pitr.cleanupLoop_listing hperm h.names hremove] at hfiles
        refine ⟨rfl, fun f hf => (hmeasures f hf).mpr ⟨?_, hremove f hf⟩⟩
        have hkept : f ∈ d.files.filter (fun f => !Pitr.doomed cutoff f) ↔
            f ∈ d.files.filter (fun f => ¬ Old now maxAgeSecs (d.createdAt f.name)) :=
          Eq.to_iff (congrArg (f ∈ ·) hfiles)
        simp only [List.mem_filter, hf, true_and, Bool.not_eq_true', decide_eq_true_eq] at hkept
        rw [← not_iff_not, Bool.not_eq_true]
        exact hkept
      · rintro ⟨-, hall⟩
        have hboth := fun f hf => (hmeasures f hf).mp (hall f hf)
        rw [Pitr.cleanupLoop_listing hperm h.names fun f hf => (hboth f hf).2]
        constructor
        · refine congrArg Except.ok (List.countP_congr fun f hf => ?_)
          rw [decide_eq_true_eq]
          exact (hboth f hf).1
        · refine List.filter_congr fun f hf => ?_
          rw [Bool.eq_iff_iff, Bool.not_eq_true', decide_eq_true_eq, ← Bool.not_eq_true]
          exact not_congr (hboth f hf).1

/-- Of snapshots made after the first seconds of 1970 none is ever removed, whatever their age. -/
theorem cleanup_removes_nothing (steps : List SnapshotStep) (now maxAgeSecs : Nat)
    {files : List SnapshotFile} (removeFile : String → Option KvStoreError)
    (hlisting : files.Perm (steps.foldl step {}).files)
    (hmade : ∀ f ∈ (steps.foldl step {}).files,
      now / 10 ^ 9 ≤ (steps.foldl step {}).createdAt f.name % 2 ^ 64) :
    Pitr.cleanupOldSnapshots (now / 10 ^ 9) maxAgeSecs (.ok files) removeFile
      (steps.foldl step {}).files = (.ok 0, (steps.foldl step {}).files) := by
  have h := run_dated steps
  generalize steps.foldl step {} = d at h hlisting hmade ⊢
  have hspared : ∀ f ∈ d.files, ¬ Pitr.doomed (now / 10 ^ 9 - maxAgeSecs) f = true := by
    intro f hf
    rw [doomed_iff h _ hf]
    have := hmade f hf
    omega
  show Pitr.cleanupLoop (now / 10 ^ 9 - maxAgeSecs) removeFile files 0 d.files = _
  rw [Pitr.cleanupLoop_listing hlisting h.names fun f hf hdoomed => absurd hdoomed (hspared f hf),
    List.countP_eq_zero.mpr hspared, List.filter_eq_self.mpr fun f hf => by
      rw [Bool.not_eq_true', ← Bool.not_eq_true]
      exact hspared f hf]

/-- One snapshot of an empty store, made at an instant. -/
def oneSnapshot (nanos : Nat) : List SnapshotStep :=
  [.create (.plain [(KvStore.new.saved, "{}")]) { nanos } [] KvStore.new]

/-- A snapshot of the fifth nanosecond is removed at the thousandth second. -/
theorem cleanup_honours_age_iff_first : HonoursAge ((oneSnapshot 5).foldl step {}) (10 ^ 12) 100
    (Pitr.cleanupOldSnapshots (10 ^ 12 / 10 ^ 9) 100 (.ok ((oneSnapshot 5).foldl step {}).files)
      (fun _ => none) ((oneSnapshot 5).foldl step {}).files) :=
  (cleanup_honours_age_iff (oneSnapshot 5) (10 ^ 12) 100 (.ok ((oneSnapshot 5).foldl step {}).files)
    (fun _ => none) fun _ h => by cases h; rfl).mpr (by decide +kernel)

/-- A snapshot of September 2020 is there after a clean-up in November 2023 of all that is more than an
hour old. -/
theorem old_snapshot_kept :
    let d := (oneSnapshot (1600000000 * 10 ^ 9)).foldl step {}
    let r := Pitr.cleanupOldSnapshots (1700000000 * 10 ^ 9 / 10 ^ 9) 3600 (.ok d.files) (fun _ => none)
      d.files
    r = (.ok 0, d.files) ∧
      (∃ f ∈ d.files, Old (1700000000 * 10 ^ 9) 3600 (d.createdAt f.name)) ∧
      ¬ HonoursAge d (1700000000 * 10 ^ 9) 3600 r := by
  intro d r
  have hanswer : r.1 = .ok 0 := by decide +kernel
  refine ⟨by decide +kernel, by decide +kernel, fun h => ?_⟩
  rw [h.answer] at hanswer
  exact absurd hanswer (by decide +kernel)

end SnapshotDir

end Daikon
