/-
# Daikon.Store.Atomic -- what a save leaves at its path when the disk fails

`save_with_version` writes a temporary file and renames it, so that the path has its old contents or the
whole new ones. The document comes to the temporary file through a `BufWriter`, and an encoder in front of
it; both are dropped, and what they pass down then is written where nobody looks at an error. The rename
comes all the same. A save is atomic exactly if the disk takes every block, or an error is seen before
(`save_atomic_iff`).

The disk is described call by call (`Faults`): each `write` takes a number of bytes, is interrupted or
fails. What the writers in between do with it is `Lib.Buffered`, instantiated with the 8 KiB of a
`BufWriter` and with the pieces in which an encoder passes its output on. Of an encoder it is known what it
passes on while it is used and what it passes on when it is dropped; the zstd encoder is finished, and the
gzip encoder is not.

The statement is exact for every store, every files and every pattern of failures. The steps whose errors
the code looks at do no harm, for the save then ends before the rename. What is left is the last flush, and
`full_disk_empties_file` shows it at its worst: a store small enough to fit the buffer, a full disk, and a
save that reports success over an empty file. `saveWithVersion_diskFor` connects the save of this module
with the one of `Daikon.Store.File`, which knows of the flush only how much it loses.
-/
import Daikon.Lib.Buffered
import Daikon.Store.File

namespace Daikon

open Lib.Buffered (WriteCall Settings BufWriter takeAll blocks allBlocks takeAll_append allBlocks_append)

/-- What a file holds. -/
abbrev FileBytes := List UInt8

/-! ## The bytes of a document, piece by piece -/

/-- The libraries, with the pieces in which they pass a document on. A piece is written to the end or to an
error, as `write_all` does. -/
structure StreamLib extends FileLib FileBytes where
  /-- What `serde_json::to_writer_pretty` writes. -/
  pieces : Json → List FileBytes
  /-- What `GzEncoder` passes on while these are written to it. -/
  gzPasses : List FileBytes → List FileBytes
  /-- What it passes on when it is dropped, after so many of its own pieces went through. -/
  gzDrops : List FileBytes → Nat → List FileBytes
  zstdPasses : List FileBytes → List FileBytes
  zstdFinish : List FileBytes → List FileBytes
  pieces_flatten : ∀ doc, (pieces doc).flatten = toWriterPretty doc
  gz_flatten : ∀ ps, (gzPasses ps ++ gzDrops ps (gzPasses ps).length).flatten = gzEncode ps.flatten
  zstd_flatten : ∀ ps, (zstdPasses ps ++ zstdFinish ps).flatten = zstdEncode ps.flatten
  cut_eq : ∀ n b, cut n b = b.take (b.length - (n + 1))

/-- The pieces that come to the `BufWriter`: those whose errors the code sees, and those that an encoder
still passes on when it is dropped after so many of them. -/
structure Stream where
  seen : List FileBytes
  unseen : Nat → List FileBytes

/-- All pieces of the stream, where none fails. -/
def Stream.all (stream : Stream) : List FileBytes := stream.seen ++ stream.unseen stream.seen.length

namespace StreamLib

variable (lib : StreamLib)

/-- The three branches of the writer: `finish` of the zstd encoder is called, the gzip encoder is
dropped. -/
def stream (compression : FileCompression) (doc : Json) : Stream :=
  match compression with
  | .none => ⟨lib.pieces doc, fun _ => []⟩
  | .gzip => ⟨lib.gzPasses (lib.pieces doc), lib.gzDrops (lib.pieces doc)⟩
  | .zstd => ⟨lib.zstdPasses (lib.pieces doc) ++ lib.zstdFinish (lib.pieces doc), fun _ => []⟩

/-- The complete serialisation. -/
def whole (compression : FileCompression) (doc : Json) : FileBytes :=
  lib.pack compression (lib.toWriterPretty doc)

theorem stream_flatten (compression : FileCompression) (doc : Json) :
    (lib.stream compression doc).all.flatten = lib.whole compression doc := by
  unfold whole
  rw [← lib.pieces_flatten]
  cases compression with
  | none => exact congrArg List.flatten (List.append_nil _)
  | gzip => exact lib.gz_flatten _
  | zstd => exact (congrArg List.flatten (List.append_nil _)).trans (lib.zstd_flatten _)

end StreamLib

/-! ## Writing the temporary file -/

/-- `BufWriter` as it comes: 8 KiB. -/
def bufWriter : Settings String where
  capacity := 8192
  capacity_pos := by decide
  zeroBuffer := "failed to write the buffered data"
  zeroPiece := "failed to write whole buffer"

/-- What goes wrong during a save. What becomes of the bytes is told by `calls`, call by call, and not by
`write` and `flush` of `disk`. -/
structure Faults where
  disk : Disk := {}
  /-- The error of `zstd::Encoder::new`. -/
  zstdNew : Option String := none
  calls : List (WriteCall String) := []

/-- Create the file at a path, write a document to it and drop the writers. -/
def writeStream (lib : StreamLib) (faults : Faults) (failure : String → String)
    (compression : FileCompression) (doc : Json) (path : Path) (files : Files FileBytes) :
    Except String Unit × Files FileBytes :=
  match path.fileName with
  | none => (.error (failure "Is a directory (os error 21)"), files)
  | some name =>
      match faults.disk.create with
      | some e => (.error (failure e), files)
      | none =>
          match if compression = .zstd then faults.zstdNew else none with
          | some e => (.error e, files.put path.dir name [])
          | none =>
              let stream := lib.stream compression doc
              let (n, error, w) := BufWriter.writeAll bufWriter { calls := faults.calls } stream.seen
              -- the scope ends, with an error or without
              let (_, _, w) := w.writeAll bufWriter (stream.unseen n)
              let files := files.put path.dir name (w.dropped bufWriter)
              match error with
              | some e => (.error e, files)
              | none => (.ok (), files)

namespace KvStore

variable {B : Type}

/-- `save_with_version` around the scope that writes the temporary file. -/
def saveWithVersionThrough (lib : FileLib B) (disk : Disk) (path : Path) (maxVersions : Nat)
    (write : (String → String) → Path → Files B → Except String Unit × Files B) (files : Files B) :
    Except String Unit × Files B :=
  match path.fileName with
  | none => (.error "invalid filename", files)
  | some name =>
      match backup lib disk path.dir name maxVersions files with
      | (.error e, files) => (.error e, files)
      | (.ok (), files) =>
          let tmp := tmpPath path
          let failure := fun e => s!"Failed to create temp file {lib.debug tmp.text}: {e}"
          match write failure tmp files with
          | (.error e, files) => (.error e, files)
          | (.ok (), files) =>
              match disk.rename with
              | some e =>
                  (.error s!"Failed to rename {lib.debug tmp.text} to {lib.debug path.text}: {e}",
                    files)
              | none => (.ok (), files.rename tmp path)

theorem saveWithVersion_eq (s : KvStore) (lib : FileLib B) (disk : Disk) (path : Path) (maxVersions : Nat)
    (files : Files B) : s.saveWithVersion lib disk path maxVersions files
      = saveWithVersionThrough lib disk path maxVersions (fun failure =>
          writeFile lib disk failure (compressionForPath path) (Serde.encodeStore lib.toSerializer s))
        files := rfl

/-- `save_with_version`, with the writes that it makes. -/
def saveWithVersionStreamed (s : KvStore) (lib : StreamLib) (faults : Faults) (path : Path)
    (maxVersions : Nat) (files : Files FileBytes) : Except String Unit × Files FileBytes :=
  saveWithVersionThrough lib.toFileLib faults.disk path maxVersions (fun failure =>
    writeStream lib faults failure (compressionForPath path) (Serde.encodeStore lib.toSerializer s)) files

end KvStore

/-! ## The temporary file and the backups are other files -/

/-- The two parts of a name, and the dot between them. -/
theorem Path.splitDot_eq {name stem ext : String} (h : Path.splitDot name = some (stem, ext)) :
    name = stem ++ "." ++ ext := by
  have hparts := List.takeWhile_append_dropWhile (p := (· ≠ '.')) (l := name.toList.reverse)
  have hdot := List.head?_dropWhile_not (· ≠ '.') name.toList.reverse
  simp only [Path.splitDot] at h
  rcases hafter : name.toList.reverse.dropWhile (· ≠ '.') with _ | ⟨dot, _ | ⟨c, stem'⟩⟩
  · rw [hafter] at h
    cases h
  · rw [hafter] at h
    cases h
  · rw [hafter] at h hparts hdot
    cases h
    have hdot : dot = '.' := by simpa using hdot
    rw [← List.reverse_inj, List.reverse_reverse, List.reverse_append, List.reverse_cons, hdot] at hparts
    rw [← String.toList_inj, String.toList_append, String.toList_append, String.toList_ofList,
      String.toList_ofList (l := List.reverse (List.takeWhile _ _))]
    exact hparts.symm

/-- The temporary file has a longer name. -/
theorem KvStore.tmpPath_fileName_eq {path : Path} {name : String} (h : path.fileName = some name) :
    (tmpPath path).fileName = some (name ++ ".tmp") := by
  unfold tmpPath Path.extension Path.withExtension
  rw [h]
  cases hsplit : Path.splitDot name with
  | none =>
      simp only [Option.bind_some, hsplit, Option.map_none, Option.map_some]
      exact congrArg some String.append_assoc
  | some parts =>
      obtain ⟨stem, ext⟩ := parts
      simp only [Option.bind_some, hsplit, Option.map_some]
      rw [Path.splitDot_eq hsplit, if_neg (by simp)]
      exact congrArg some String.append_assoc.symm

theorem KvStore.tmpPath_fileName {path : Path} {name : String} (h : path.fileName = some name) :
    ∃ tmp, (tmpPath path).fileName = some tmp ∧ tmp ≠ name := by
  refine ⟨name ++ ".tmp", tmpPath_fileName_eq h, fun heq => ?_⟩
  have hlength := congrArg String.length heq
  rw [String.length_append] at hlength
  have : ".tmp".length = 4 := rfl
  omega

theorem Files.read_eq {B : Type} (files : Files B) {path : Path} {name : String}
    (h : path.fileName = some name) : files.read path = files path.dir name := by
  rw [read, h, Option.bind_some]

theorem Files.remove_of_ne {B : Type} (files : Files B) {dir name n : String} (hne : n ≠ name) :
    (files.remove dir name) dir n = files dir n := if_neg fun h => hne h.2

theorem Files.put_of_ne {B : Type} (files : Files B) {dir name n : String} (b : B) (hne : n ≠ name) :
    (files.put dir name b) dir n = files dir n := if_neg fun h => hne h.2

namespace KvStore

variable {B : Type}

theorem pruneBackups_other (disk : Disk) (dir : String) (maxVersions : Nat) {n : String}
    (backups : List (String × Nat)) : ∀ (files : Files B), (∀ f ∈ backups, f.1 ≠ n) →
      pruneBackups disk dir maxVersions backups files dir n = files dir n := by
  induction backups with
  | nil => exact fun _ _ => rfl
  | cons oldest backups ih =>
      intro files hother
      unfold pruneBackups
      split
      · rw [ih _ fun f hf => hother f (List.mem_cons_of_mem _ hf)]
        split
        · rfl
        · exact files.remove_of_ne (hother oldest List.mem_cons_self).symm
      · rfl

/-- A name that begins so is longer than the name of the file. -/
theorem ne_of_backup_name {name n : String} (h : (name ++ ".bak.").toList.isPrefixOf n.toList = true) :
    n ≠ name := by
  rintro rfl
  have hle := (List.isPrefixOf_iff_prefix.mp h).length_le
  have hfive : ".bak.".length = 5 := rfl
  rw [String.length_toList, String.length_toList, String.length_append] at hle
  omega

/-- Neither a backup nor the removal of old ones touches the file. -/
theorem backup_read (lib : FileLib B) (disk : Disk) (dir name : String) (maxVersions : Nat)
    (files : Files B) : (backup lib disk dir name maxVersions files).2 dir name = files dir name := by
  unfold backup
  cases hfile : files dir name with
  | none => exact hfile
  | some b =>
      cases hcopy : disk.copy with
      | some e => exact hfile
      | none =>
          -- the name of a backup is longer
          have hname : name ≠ s!"{name}.bak.{disk.epoch}" := by
            intro heq
            have hlength := congrArg String.length heq
            simp only [String.length_append, toString] at hlength
            have hfive : ".bak.".length = 5 := rfl
            omega
          have hput : (files.put dir s!"{name}.bak.{disk.epoch}" b) dir name = some b :=
            (files.put_of_ne b hname).trans hfile
          cases hread : disk.readDir with
          | some e => exact hput
          | none =>
              refine (pruneBackups_other disk dir maxVersions _ _ fun f hf => ?_).trans hput
              have hlisted := List.mem_mergeSort.mp hf
              exact ne_of_backup_name (List.mem_filter.mp hlisted).2

theorem backup_ok_iff (lib : FileLib B) (disk : Disk) (dir name : String) (maxVersions : Nat)
    (files : Files B) : (backup lib disk dir name maxVersions files).1 = .ok () ↔
      ¬ (files dir name ≠ none ∧ (disk.copy ≠ none ∨ disk.readDir ≠ none)) := by
  unfold backup
  cases files dir name with
  | none => simp
  | some b =>
      cases disk.copy with
      | some e => simp
      | none =>
          cases disk.readDir with
          | some e => simp
          | none => simp

section

variable {lib : FileLib B} {disk : Disk} {path : Path} {maxVersions : Nat} {files : Files B}
  {write : (String → String) → Path → Files B → Except String Unit × Files B} {name : String}

/-- A write that answers does so after a backup, and the rename comes after it. -/
theorem saveWithVersionThrough_ok {files' : Files B} (hname : path.fileName = some name)
    (h : saveWithVersionThrough lib disk path maxVersions write files = (.ok (), files')) :
    (backup lib disk path.dir name maxVersions files).1 = .ok () ∧ disk.rename = none ∧
      ∃ failure kept written, write failure (tmpPath path) kept = (.ok (), written) := by
  unfold saveWithVersionThrough at h
  rw [hname] at h
  rcases hbackup : backup lib disk path.dir name maxVersions files with ⟨e | u, kept⟩
  · simp [hbackup] at h
  · simp only [hbackup] at h
    split at h
    · cases h
    · next written hwrite =>
        cases hrename : disk.rename with
        | some e =>
            rw [hrename] at h
            cases h
        | none => exact ⟨rfl, rfl, _, _, _, hwrite⟩

/-- A save that reports an error leaves the file, if the write keeps to the temporary one. -/
theorem saveWithVersionThrough_error
    (hwrite : ∀ failure kept name tmp, path.fileName = some name → (tmpPath path).fileName = some tmp →
      tmp ≠ name → (write failure (tmpPath path) kept).2 path.dir name = kept path.dir name)
    {e : String} {files' : Files B}
    (h : saveWithVersionThrough lib disk path maxVersions write files = (.error e, files')) :
    files'.read path = files.read path := by
  unfold saveWithVersionThrough at h
  cases hname : path.fileName with
  | none =>
      rw [hname] at h
      cases h
      rfl
  | some name =>
      obtain ⟨tmp, htmp, hne⟩ := tmpPath_fileName hname
      have hkept := backup_read lib disk path.dir name maxVersions files
      rw [hname] at h
      simp only [Files.read_eq _ hname]
      rcases hbackup : backup lib disk path.dir name maxVersions files with ⟨e' | u, kept⟩
      · rw [hbackup] at hkept
        simp only [hbackup] at h
        cases h
        exact hkept
      · rw [hbackup] at hkept
        simp only [hbackup] at h
        have hsame := fun failure => (hwrite failure kept name tmp hname htmp hne).trans hkept
        split at h
        · next written heq =>
            cases h
            exact (congrArg (fun r => r.2 path.dir name) heq).symm.trans (hsame _)
        · next written heq =>
            cases hrename : disk.rename with
            | none =>
                rw [hrename] at h
                cases h
            | some e' =>
                rw [hrename] at h
                cases h
                exact (congrArg (fun r => r.2 path.dir name) heq).symm.trans (hsame _)

end

end KvStore

/-! ## What the temporary file holds -/

/-- The disk takes the blocks of what is written while errors are seen. -/
def Faults.TakesSeen (faults : Faults) (stream : Stream) : Prop :=
  takeAll faults.calls (blocks bufWriter.capacity [] stream.seen).1 ≠ none

/-- It takes every block, the last included. -/
def Faults.TakesAll (faults : Faults) (stream : Stream) : Prop :=
  takeAll faults.calls (allBlocks bufWriter.capacity [] stream.all) ≠ none

/-- The encoder of this compression can be made. -/
def Faults.Opens (faults : Faults) (compression : FileCompression) : Prop :=
  compression = .zstd → faults.zstdNew = none

theorem Faults.Opens.new {faults : Faults} {compression : FileCompression} (h : faults.Opens compression) :
    (if compression = .zstd then faults.zstdNew else none) = none := by
  split
  · next hzstd => exact h hzstd
  · rfl

/-- What is on the disk when all of the stream was written and the writers are dropped. -/
def Faults.landed (faults : Faults) (stream : Stream) : FileBytes :=
  let w := (BufWriter.writeAll bufWriter { calls := faults.calls } stream.seen).2.2
  (w.writeAll bufWriter (stream.unseen stream.seen.length)).2.2.dropped bufWriter

theorem Faults.landed_eq_iff {faults : Faults} {stream : Stream} (h : faults.TakesSeen stream) :
    faults.landed stream = stream.all.flatten ↔ faults.TakesAll stream :=
  BufWriter.dropped_append_eq_iff h

theorem Faults.landed_begins {faults : Faults} {stream : Stream} (h : faults.TakesSeen stream) :
    faults.landed stream <+: stream.all.flatten := by
  obtain ⟨calls, hcalls⟩ := Option.ne_none_iff_exists'.mp h
  obtain ⟨w, hw, hheld, -, -⟩ := BufWriter.writeAll_ok (c := bufWriter) (w := { calls := faults.calls })
    stream.seen hcalls
  have hbytes := BufWriter.writeAll_begins (c := bufWriter) (stream.unseen stream.seen.length) w
  rw [hheld] at hbytes
  unfold landed Stream.all
  rw [hw, List.flatten_append]
  exact (BufWriter.dropped_begins _).trans hbytes

section

variable {lib : StreamLib} {faults : Faults} {failure : String → String} {compression : FileCompression}
  {doc : Json} {path : Path} {files : Files FileBytes} {name : String}

theorem writeStream_ok (hname : path.fileName = some name) (hcreate : faults.disk.create = none)
    (hopens : faults.Opens compression) (hseen : faults.TakesSeen (lib.stream compression doc)) :
    writeStream lib faults failure compression doc path files
      = (.ok (), files.put path.dir name (faults.landed (lib.stream compression doc))) := by
  have herror := (BufWriter.writeAll_error_iff (c := bufWriter) (w := { calls := faults.calls })
    (lib.stream compression doc).seen).mpr hseen
  have hcount := BufWriter.writeAll_count herror
  simp only [writeStream, hname, hcreate, hopens.new, herror, hcount]
  rfl

/-- A step that fails where the code looks is an error. -/
theorem writeStream_steps {written : Files FileBytes} (hname : path.fileName = some name)
    (h : writeStream lib faults failure compression doc path files = (.ok (), written)) :
    faults.disk.create = none ∧ faults.Opens compression ∧
      faults.TakesSeen (lib.stream compression doc) := by
  cases hcreate : faults.disk.create with
  | some e =>
      simp only [writeStream, hname, hcreate] at h
      cases h
  | none =>
      cases hnew : (if compression = .zstd then faults.zstdNew else none) with
      | some e =>
          simp only [writeStream, hname, hcreate, hnew] at h
          cases h
      | none =>
          refine ⟨rfl, fun hzstd => ?_, fun hseen => ?_⟩
          · rwa [if_pos hzstd] at hnew
          · obtain ⟨n, e, w, hw, -⟩ := BufWriter.writeAll_failed (c := bufWriter)
              (w := { calls := faults.calls }) _ hseen
            simp only [writeStream, hname, hcreate, hnew, hw] at h
            cases h

/-- Only the file at the path is written. -/
theorem writeStream_other {answer : Except String Unit} {written : Files FileBytes}
    (hname : path.fileName = some name) {n : String} (hne : n ≠ name)
    (h : writeStream lib faults failure compression doc path files = (answer, written)) :
    written path.dir n = files path.dir n := by
  have hwritten : written = (writeStream lib faults failure compression doc path files).2 := by rw [h]
  rw [hwritten]
  unfold writeStream
  rw [hname]
  cases faults.disk.create with
  | some e => rfl
  | none =>
      cases (if compression = .zstd then faults.zstdNew else none) with
      | some e => exact files.put_of_ne _ hne
      | none =>
          simp only
          split <;> exact files.put_of_ne _ hne

end

/-! ## What the path holds after a save -/

/-- Every step of which the code looks at the error goes well. -/
structure Faults.Passes (faults : Faults) (lib : StreamLib) (doc : Json) (path : Path)
    (files : Files FileBytes) : Prop where
  file : path.fileName ≠ none
  backup : ¬ (files.read path ≠ none ∧ (faults.disk.copy ≠ none ∨ faults.disk.readDir ≠ none))
  create : faults.disk.create = none
  opens : faults.Opens (compressionForPath path)
  seen : faults.TakesSeen (lib.stream (compressionForPath path) doc)
  rename : faults.disk.rename = none

/-- The path has its previous contents or the whole new ones, and after a success the new ones. -/
structure SavedAtomically (whole : FileBytes) (path : Path) (files : Files FileBytes)
    (result : Except String Unit × Files FileBytes) : Prop where
  either : result.2.read path = files.read path ∨ result.2.read path = some whole
  success : result.1 = .ok () → result.2.read path = some whole

namespace KvStore

section

variable {s : KvStore} {lib : StreamLib} {faults : Faults} {path : Path} {files : Files FileBytes}

theorem tmpPath_dir (path : Path) : (tmpPath path).dir = path.dir := by
  unfold tmpPath
  cases path.extension <;> rfl

theorem saveWithVersionStreamed_ok (maxVersions : Nat)
    (h : faults.Passes lib (Serde.encodeStore lib.toSerializer s) path files) :
    ∃ files', s.saveWithVersionStreamed lib faults path maxVersions files = (.ok (), files') ∧
      files'.read path = some (faults.landed
        (lib.stream (compressionForPath path) (Serde.encodeStore lib.toSerializer s))) := by
  obtain ⟨name, hname⟩ := Option.ne_none_iff_exists'.mp h.file
  obtain ⟨tmp, htmp, -⟩ := tmpPath_fileName hname
  have hbackup : (backup lib.toFileLib faults.disk path.dir name maxVersions files).1 = .ok () :=
    (backup_ok_iff ..).mpr (files.read_eq hname ▸ h.backup)
  obtain ⟨kept, hkept⟩ : ∃ kept, backup lib.toFileLib faults.disk path.dir name maxVersions files
      = (.ok (), kept) := ⟨_, Prod.ext hbackup rfl⟩
  unfold saveWithVersionStreamed saveWithVersionThrough
  rw [hname]
  simp only [hkept, writeStream_ok htmp h.create h.opens h.seen, h.rename]
  refine ⟨_, rfl, ?_⟩
  rw [Files.read_rename _ _ _ _ hname]
  exact Files.read_put _ _ _ _ htmp

theorem saveWithVersionStreamed_error (maxVersions : Nat)
    (h : ¬ faults.Passes lib (Serde.encodeStore lib.toSerializer s) path files) :
    ∃ e files', s.saveWithVersionStreamed lib faults path maxVersions files = (.error e, files') ∧
      files'.read path = files.read path := by
  rcases hsave : s.saveWithVersionStreamed lib faults path maxVersions files with ⟨e | u, files'⟩
  · refine ⟨e, files', rfl, saveWithVersionThrough_error ?_ hsave⟩
    intro failure kept name tmp hname htmp hne
    have hsame := writeStream_other htmp hne.symm (Prod.mk.eta (p := writeStream lib faults failure
      (compressionForPath path) (Serde.encodeStore lib.toSerializer s) (tmpPath path) kept)).symm
    rwa [tmpPath_dir] at hsame
  · -- no step is left that could have failed
    cases hname : path.fileName with
    | none =>
        unfold saveWithVersionStreamed saveWithVersionThrough at hsave
        rw [hname] at hsave
        cases hsave
    | some name =>
        obtain ⟨tmp, htmp, -⟩ := tmpPath_fileName hname
        obtain ⟨hbackup, hrename, failure, kept, written, hwrite⟩ := saveWithVersionThrough_ok hname hsave
        obtain ⟨hcreate, hopens, hseen⟩ := writeStream_steps htmp hwrite
        have hok := (backup_ok_iff ..).mp hbackup
        exact absurd ⟨by simp [hname], files.read_eq hname ▸ hok, hcreate, hopens, hseen, hrename⟩ h

end

/-- For every store, every files that are there and every pattern of failures: a save leaves the path
with its previous contents or the complete serialisation, and with the latter when it reports success,
if and only if the disk takes every block where all steps whose errors are looked at go well. -/
theorem save_atomic_iff (s : KvStore) (lib : StreamLib) (faults : Faults) (path : Path)
    (maxVersions : Nat) (files : Files FileBytes) :
    SavedAtomically (lib.whole (compressionForPath path) (Serde.encodeStore lib.toSerializer s)) path files
        (s.saveWithVersionStreamed lib faults path maxVersions files) ↔
      (faults.Passes lib (Serde.encodeStore lib.toSerializer s) path files →
        faults.TakesAll (lib.stream (compressionForPath path) (Serde.encodeStore lib.toSerializer s))) := by
  by_cases hpasses : faults.Passes lib (Serde.encodeStore lib.toSerializer s) path files
  · obtain ⟨files', hsave, hread⟩ := saveWithVersionStreamed_ok maxVersions hpasses
    rw [hsave, imp_iff_right hpasses, ← Faults.landed_eq_iff hpasses.seen, lib.stream_flatten]
    constructor
    · intro hatomic
      exact Option.some.inj (hread.symm.trans (hatomic.success rfl))
    · intro hwhole
      rw [hwhole] at hread
      exact ⟨.inr hread, fun _ => hread⟩
  · obtain ⟨e, files', hsave, hread⟩ := saveWithVersionStreamed_error maxVersions hpasses
    rw [hsave]
    exact iff_of_true ⟨.inl hread, fun hok => by cases hok⟩ fun h => absurd h hpasses

end KvStore

/-! ## The disk of the whole save

`saveWithVersion` says of the bytes only how many are missing at the end. That is what is left of the
writes made one by one. -/

/-- The error of writing the document, if one is seen. -/
def Faults.writeError (faults : Faults) (compression : FileCompression) (stream : Stream) : Option String :=
  match if compression = .zstd then faults.zstdNew else none with
  | some e => some e
  | none => (BufWriter.writeAll bufWriter { calls := faults.calls } stream.seen).2.1

/-- The disk with what the calls do to the document. -/
def Faults.diskFor (faults : Faults) (lib : StreamLib) (compression : FileCompression) (doc : Json) : Disk :=
  let missing := (lib.whole compression doc).length - (faults.landed (lib.stream compression doc)).length
  { faults.disk with
    write := (faults.writeError compression (lib.stream compression doc)).map fun e => (0, e)
    flush := if missing = 0 then none else some (missing - 1) }

section

variable {lib : StreamLib} {faults : Faults} {compression : FileCompression} {doc : Json}

theorem Faults.landed_diskFor (hseen : faults.TakesSeen (lib.stream compression doc)) :
    (faults.diskFor lib compression doc).landed lib.toFileLib (lib.whole compression doc)
      = faults.landed (lib.stream compression doc) := by
  have hbegins := Faults.landed_begins hseen
  rw [lib.stream_flatten] at hbegins
  have hle := hbegins.length_le
  by_cases hmissing : (lib.whole compression doc).length
      - (faults.landed (lib.stream compression doc)).length = 0
  · rw [Disk.landed_whole (if_pos hmissing)]
    exact (hbegins.eq_of_length_le (by omega)).symm
  · rw [Disk.landed_cut (if_neg hmissing), lib.cut_eq,
      List.prefix_iff_eq_take.mp hbegins, List.length_take]
    congr 1
    omega

/-- A write of the document call by call answers as the write as a whole does, and a success leaves the
same file. -/
theorem writeFile_diskFor (failure : String → String) (path : Path) (files : Files FileBytes) :
    (writeFile lib.toFileLib (faults.diskFor lib compression doc) failure compression doc path files).1
        = (writeStream lib faults failure compression doc path files).1 ∧
      ((writeStream lib faults failure compression doc path files).1 = .ok () →
        writeFile lib.toFileLib (faults.diskFor lib compression doc) failure compression doc path files
          = writeStream lib faults failure compression doc path files) := by
  cases hname : path.fileName with
  | none => simp [writeFile, writeStream, hname]
  | some name =>
      by_cases hsteps : faults.disk.create = none ∧ faults.Opens compression ∧
          faults.TakesSeen (lib.stream compression doc)
      · obtain ⟨hcreate, hopens, hseen⟩ := hsteps
        have hwrite : (faults.diskFor lib compression doc).write = none := by
          show Option.map _ (faults.writeError compression (lib.stream compression doc)) = none
          rw [Faults.writeError, hopens.new]
          exact Option.map_eq_none_iff.mpr ((BufWriter.writeAll_error_iff _).mpr hseen)
        have hsame : writeFile lib.toFileLib (faults.diskFor lib compression doc) failure compression doc
            path files = writeStream lib faults failure compression doc path files := by
          rw [writeStream_ok hname hcreate hopens hseen, ← Faults.landed_diskFor hseen]
          unfold writeFile
          simp only [hname, show (faults.diskFor lib compression doc).create = none from hcreate, hwrite]
          rfl
        exact ⟨congrArg Prod.fst hsame, fun _ => hsame⟩
      · refine ⟨?_, fun hok => absurd (writeStream_steps hname (Prod.ext hok rfl)) hsteps⟩
        unfold writeFile writeStream
        cases hcreate : faults.disk.create with
        | some e =>
            simp only [hname, show (faults.diskFor lib compression doc).create = some e from hcreate]
        | none =>
            simp only [hname, show (faults.diskFor lib compression doc).create = none from hcreate]
            cases hnew : (if compression = .zstd then faults.zstdNew else none) with
            | some e =>
                have hwrite : (faults.diskFor lib compression doc).write = some (0, e) := by
                  show Option.map _ (faults.writeError compression (lib.stream compression doc)) = _
                  rw [Faults.writeError, hnew]
                  rfl
                simp only [hwrite]
            | none =>
                have hopens : faults.Opens compression := fun hzstd => by rwa [if_pos hzstd] at hnew
                have herror := mt (BufWriter.writeAll_error_iff (c := bufWriter)
                  (w := { calls := faults.calls }) (lib.stream compression doc).seen).mp
                  fun hseen => hsteps ⟨hcreate, hopens, hseen⟩
                obtain ⟨e, he⟩ := Option.ne_none_iff_exists'.mp herror
                have hwrite : (faults.diskFor lib compression doc).write = some (0, e) := by
                  show Option.map _ (faults.writeError compression (lib.stream compression doc)) = _
                  rw [Faults.writeError, hnew]
                  exact congrArg _ he
                simp only [hwrite, he]

end

namespace KvStore

theorem pruneBackups_diskFor {lib : StreamLib} {faults : Faults} {compression : FileCompression}
    {doc : Json} (dir : String) (maxVersions : Nat) (backups : List (String × Nat)) :
    ∀ files : Files FileBytes, pruneBackups (faults.diskFor lib compression doc) dir maxVersions backups files
      = pruneBackups faults.disk dir maxVersions backups files := by
  induction backups with
  | nil => exact fun _ => rfl
  | cons oldest backups ih =>
      intro files
      unfold pruneBackups
      rw [ih]
      rfl

theorem backup_diskFor {lib : StreamLib} {faults : Faults} {compression : FileCompression} {doc : Json}
    (dir name : String) (maxVersions : Nat) (files : Files FileBytes) :
    backup lib.toFileLib (faults.diskFor lib compression doc) dir name maxVersions files
      = backup lib.toFileLib faults.disk dir name maxVersions files := by
  unfold backup
  simp only [pruneBackups_diskFor]
  rfl

/-- Two ways to write the temporary file that answer alike and leave the same files after a success make
two saves that do. -/
theorem saveWithVersionThrough_congr {B : Type} {lib : FileLib B} {disk : Disk} {path : Path}
    {maxVersions : Nat} {write write' : (String → String) → Path → Files B → Except String Unit × Files B}
    (h : ∀ failure tmp files, (write failure tmp files).1 = (write' failure tmp files).1 ∧
      ((write' failure tmp files).1 = .ok () → write failure tmp files = write' failure tmp files))
    (files : Files B) :
    (saveWithVersionThrough lib disk path maxVersions write files).1
        = (saveWithVersionThrough lib disk path maxVersions write' files).1 ∧
      ((saveWithVersionThrough lib disk path maxVersions write' files).1 = .ok () →
        saveWithVersionThrough lib disk path maxVersions write files
          = saveWithVersionThrough lib disk path maxVersions write' files) := by
  unfold saveWithVersionThrough
  cases path.fileName with
  | none => exact ⟨rfl, fun _ => rfl⟩
  | some name =>
      simp only
      rcases backup lib disk path.dir name maxVersions files with ⟨e | u, kept⟩
      · exact ⟨rfl, fun _ => rfl⟩
      · simp only
        generalize hfailure : (fun e : String =>
          s!"Failed to create temp file {lib.debug (tmpPath path).text}: {e}") = failure
        obtain ⟨hanswer, hsame⟩ := h failure (tmpPath path) kept
        rcases hwrite : write failure (tmpPath path) kept with ⟨answer, left⟩
        rcases hwrite' : write' failure (tmpPath path) kept with ⟨answer', left'⟩
        rw [hwrite, hwrite'] at hanswer hsame
        obtain rfl : answer = answer' := hanswer
        cases answer with
        | error e => exact ⟨rfl, fun hok => by cases hok⟩
        | ok u =>
            rw [hsame rfl]
            exact ⟨rfl, fun _ => rfl⟩

/-- A save with its writes one by one is a save of `saveWithVersion`: the same answer, and after a
success the same files. -/
theorem saveWithVersion_diskFor (s : KvStore) (lib : StreamLib) (faults : Faults) (path : Path)
    (maxVersions : Nat) (files : Files FileBytes) :
    let disk := faults.diskFor lib (compressionForPath path) (Serde.encodeStore lib.toSerializer s)
    (s.saveWithVersion lib.toFileLib disk path maxVersions files).1
        = (s.saveWithVersionStreamed lib faults path maxVersions files).1 ∧
      ((s.saveWithVersionStreamed lib faults path maxVersions files).1 = .ok () →
        s.saveWithVersion lib.toFileLib disk path maxVersions files
          = s.saveWithVersionStreamed lib faults path maxVersions files) := by
  intro disk
  have hstreamed : s.saveWithVersionStreamed lib faults path maxVersions files
      = saveWithVersionThrough lib.toFileLib disk path maxVersions (fun failure =>
          writeStream lib faults failure (compressionForPath path)
            (Serde.encodeStore lib.toSerializer s)) files := by
    unfold saveWithVersionStreamed saveWithVersionThrough
    simp only [disk, backup_diskFor]
    rfl
  rw [saveWithVersion_eq, hstreamed]
  exact saveWithVersionThrough_congr (fun failure tmp files => writeFile_diskFor failure tmp files) files

end KvStore

/-- Libraries that write this text of every document and compress nothing. -/
def StreamLib.ofText (text : FileBytes) : StreamLib where
  entries m := m.toList
  jsonDoc j := .str j.text
  docJson _ := ⟨""⟩
  toWriterPretty _ := text
  fromReader _ := .error "not read"
  gzEncode := id
  gzDecode := .ok
  zstdEncode := id
  zstdDecode := .ok
  cut n b := b.take (b.length - (n + 1))
  mismatch _ := "invalid type"
  debug text := "\"" ++ text ++ "\""
  pieces _ := [text]
  gzPasses := id
  gzDrops _ _ := []
  zstdPasses := id
  zstdFinish _ := []
  pieces_flatten _ := List.append_nil text
  gz_flatten ps := by simp
  zstd_flatten ps := by simp
  cut_eq _ _ := rfl

/-- The file of an empty store. -/
def emptyStoreText : FileBytes :=
  ("\x7b\n  \"store\": \x7b\x7d,\n  \"stats\": \x7b\n    \"total_keys\": 0,\n    \"expired_keys\": 0,\n"
    ++ "    \"total_reads\": 0,\n    \"total_writes\": 0,\n    \"total_deletes\": 0,\n    \"hits\": 0,\n"
    ++ "    \"misses\": 0,\n    \"memory_bytes\": 0,\n    \"evictions\": 0\n  \x7d\n\x7d").toByteArray.data.toList

namespace KvStore

/-- The disk is full: the one write that a small store takes fails as the buffer is dropped, the save
reports success, and the file, a saved store until then, is empty. -/
theorem full_disk_empties_file :
    let files : Files FileBytes := fun _ name => if name = "store.json" then some emptyStoreText else none
    let faults : Faults := { calls := [.failed "No space left on device (os error 28)"] }
    let saved := KvStore.new.saveWithVersionStreamed (.ofText emptyStoreText) faults
      ⟨"", some "store.json"⟩ 5 files
    saved.1 = .ok () ∧ saved.2.read ⟨"", some "store.json"⟩ = some [] ∧
      ¬ SavedAtomically ((StreamLib.ofText emptyStoreText).whole .none
        (Serde.encodeStore (StreamLib.ofText emptyStoreText).toSerializer KvStore.new))
          ⟨"", some "store.json"⟩ files saved := by
  intro files faults saved
  have hok : saved.1 = .ok () := by decide +kernel
  have hempty : saved.2.read ⟨"", some "store.json"⟩ = some [] := by decide +kernel
  have hlost : some [] ≠ some ((StreamLib.ofText emptyStoreText).whole .none
      (Serde.encodeStore (StreamLib.ofText emptyStoreText).toSerializer KvStore.new)) := by decide +kernel
  exact ⟨hok, hempty, fun h => hlost (hempty.symm.trans (h.success hok))⟩

end KvStore

end Daikon
