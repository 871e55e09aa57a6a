/-
# Daikon.Store.File -- saving the store to a file, and loading it

`save_to_file`, `save_with_version` and `load_from_file` over a directory tree of files. What a file
holds is left abstract: the writers and readers of `serde_json`, gzip and zstd make it and take it
apart (`FileLib`), and `FileLib.Documented` is what is known of them.

The writer is a `BufWriter` that the code drops: an error while it empties its buffer is seen by
nobody, so a save that reports success may have lost the end of the file.

The order of a `HashMap` comes with the library (`entries`), so that nothing can be proved from the order in
which a file lists its keys; what a loaded store gets for its recency list is in that order. What a disk
does is an argument of every save: each step has its error, or none, and an error of the last flush is among
them although the source never sees it (`Disk.landed`).

Two things are read off a store before it is saved. `Savable` says that every value can be written and read
back: the floats are finite, and no value is nested deeper than the reader goes. `Floatless` says that there
is no float in it, for then the question does not arise whether the last bit of a float comes back.
-/
import Daikon.Store.Serde

namespace Daikon

/-- How the file of a store is compressed. -/
inductive FileCompression where
  | none
  | gzip
  | zstd
  deriving DecidableEq, Repr

/-! ## Paths -/

/-- A path that ends in `..`, and `/`, has no file name; it names a directory. -/
structure Path where
  parent : String
  fileName : Option String
  deriving DecidableEq

namespace Path

/-- The directory of a path; an empty parent is the working directory. -/
def dir (path : Path) : String := if path.parent = "" then "." else path.parent

/-- The text of a path. -/
def text (path : Path) : String :=
  match path.fileName with
  | some name => if path.parent = "" then name else path.parent ++ "/" ++ name
  | none => path.parent

/-- A file name in front of its last dot and after it; a dot at the start is part of the name. -/
def splitDot (name : String) : Option (String × String) :=
  let letters := name.toList.reverse
  match letters.dropWhile (· ≠ '.') with
  | [] | [_] => none
  | _ :: stem =>
      some (String.ofList stem.reverse, String.ofList (letters.takeWhile (· ≠ '.')).reverse)

/-- `Path::extension`. -/
def extension (path : Path) : Option String :=
  path.fileName.bind fun name => (splitDot name).map Prod.snd

/-- `Path::with_extension`. -/
def withExtension (path : Path) (ext : String) : Path :=
  { path with fileName := path.fileName.map fun name =>
      let stem := match splitDot name with
        | some (stem, _) => stem
        | none => name
      if ext = "" then stem else stem ++ "." ++ ext }

end Path

/-- The compression that the extension asks for, when saving and when loading. -/
def compressionForPath (path : Path) : FileCompression :=
  match path.extension with
  | some "gz" => .gzip
  | some "zst" => .zstd
  | _ => .none

/-! ## Files and what they hold -/

/-- What the regular files hold: directory and name. -/
abbrev Files (B : Type) := String → String → Option B

namespace Files

variable {B : Type}

/-- The contents of the file at a path. -/
def read (files : Files B) (path : Path) : Option B :=
  path.fileName.bind (files path.dir)

/-- Write a whole file. -/
def put (files : Files B) (dir name : String) (b : B) : Files B := fun d n =>
  if d = dir ∧ n = name then some b else files d n

/-- Take a file away. -/
def remove (files : Files B) (dir name : String) : Files B := fun d n =>
  if d = dir ∧ n = name then none else files d n

/-- `fs::rename`: the source takes the place of the destination. -/
def rename (files : Files B) (src dst : Path) : Files B := fun d n =>
  if d = dst.dir ∧ some n = dst.fileName then files.read src
  else if d = src.dir ∧ some n = src.fileName then none
  else files d n

theorem read_put (files : Files B) (path : Path) (name : String) (b : B)
    (h : path.fileName = some name) : (files.put path.dir name b).read path = some b := by
  simp [read, put, h]

theorem read_rename (files : Files B) (src dst : Path) (name : String)
    (h : dst.fileName = some name) : (files.rename src dst).read dst = files.read src := by
  simp [read, rename, h]

end Files

/-- The libraries that make the contents of a file and take them apart. An error is its text. -/
structure FileLib (B : Type) extends Serializer where
  /-- `serde_json::to_writer_pretty`. -/
  toWriterPretty : Json → B
  /-- `serde_json::from_reader`, up to the document. -/
  fromReader : B → Except String Json
  gzEncode : B → B
  gzDecode : B → Except String B
  zstdEncode : B → B
  zstdDecode : B → Except String B
  /-- What is left when a file misses its last `n + 1` bytes. -/
  cut : Nat → B → B
  /-- The error of `serde_json` on a document that is no store. -/
  mismatch : Json → String
  /-- `{:?}` of a path's text. -/
  debug : String → String

namespace FileLib

variable {B : Type}

/-- What the encoders make of a document's text. -/
def pack (lib : FileLib B) : FileCompression → B → B
  | .none, b => b
  | .gzip, b => lib.gzEncode b
  | .zstd, b => lib.zstdEncode b

/-- What the decoders make of a file. -/
def unpack (lib : FileLib B) : FileCompression → B → Except String B
  | .none, b => .ok b
  | .gzip, b => lib.gzDecode b
  | .zstd, b => lib.zstdDecode b

/-- The document in a file. -/
def document (lib : FileLib B) (compression : FileCompression) (b : B) : Except String Json :=
  (lib.unpack compression b).bind lib.fromReader

/-- What the packages document of writing and reading. Floats are apart from it, in `ReadsFloats`. -/
structure Documented (lib : FileLib B) : Prop extends lib.toSerializer.Documented where
  gzDecode_gzEncode : ∀ b, lib.gzDecode (lib.gzEncode b) = .ok b
  zstdDecode_zstdEncode : ∀ b, lib.zstdDecode (lib.zstdEncode b) = .ok b
  /-- The reader of `serde_json` goes less than 128 arrays and objects deep. -/
  fromReader_shallow : ∀ doc : Json, doc.depth < 128 → doc.floatless = true →
    lib.fromReader (lib.toWriterPretty doc) = .ok doc.written
  fromReader_deep : ∀ doc : Json, 128 ≤ doc.depth →
    ∃ e, lib.fromReader (lib.toWriterPretty doc) = .error e
  /-- An object without its end is no document, and neither is a compressed file without its end. -/
  document_cut : ∀ compression n fields, ∃ e, lib.document compression
    (lib.cut n (lib.pack compression (lib.toWriterPretty (.obj fields)))) = .error e

/-- Documents with floats are read as what was written, too. The package promises so with its feature
`float_roundtrip`; without it the last bit of a float may differ. -/
def ReadsFloats (lib : FileLib B) : Prop := ∀ doc : Json, doc.depth < 128 →
  lib.fromReader (lib.toWriterPretty doc) = .ok doc.written

theorem Documented.unpack_pack {lib : FileLib B} (h : lib.Documented)
    (compression : FileCompression) (b : B) : lib.unpack compression (lib.pack compression b) = .ok b := by
  cases compression with
  | none => rfl
  | gzip => exact h.gzDecode_gzEncode b
  | zstd => exact h.zstdDecode_zstdEncode b

end FileLib

/-! ## Saving -/

/-- What the disk does while a store is saved; a step without an error succeeds. -/
structure Disk where
  /-- The clock in seconds. -/
  epoch : Nat := 0
  /-- The error of copying the file to its backup; no backup is left. -/
  copy : Option String := none
  readDir : Option String := none
  /-- The regular files that `read_dir` lists, in its order, with the times they were modified. -/
  listing : List (String × Nat) := []
  /-- A backup that cannot be removed stays. -/
  keeps : String → Bool := fun _ => false
  create : Option String := none
  /-- The error of writing the document, and how much of it is missing in the file. -/
  write : Option (Nat × String) := none
  /-- How much the last, unobserved flush loses. -/
  flush : Option Nat := none
  rename : Option String := none

variable {B : Type}

/-- What a file holds when its buffered writer has been dropped, and the error of the flush with it. -/
def Disk.landed (disk : Disk) (lib : FileLib B) (b : B) : B :=
  match disk.flush with
  | some n => lib.cut n b
  | none => b

theorem Disk.landed_whole {disk : Disk} (h : disk.flush = none) (lib : FileLib B) (b : B) :
    disk.landed lib b = b := by
  simp only [landed, h]

theorem Disk.landed_cut {disk : Disk} {n : Nat} (h : disk.flush = some n) (lib : FileLib B) (b : B) :
    disk.landed lib b = lib.cut n b := by
  simp only [landed, h]

/-- Create the file at a path and write a document to it. -/
def writeFile (lib : FileLib B) (disk : Disk) (failure : String → String)
    (compression : FileCompression) (doc : Json) (path : Path) (files : Files B) :
    Except String Unit × Files B :=
  match path.fileName with
  | none => (.error (failure "Is a directory (os error 21)"), files)
  | some name =>
      match disk.create with
      | some e => (.error (failure e), files)
      | none =>
          let b := lib.pack compression (lib.toWriterPretty doc)
          match disk.write with
          | some (n, e) => (.error e, files.put path.dir name (lib.cut n b))
          | none => (.ok (), files.put path.dir name (disk.landed lib b))

namespace KvStore

/-- Write the store to the path itself. A write that fails leaves a part of the file there. -/
def saveToFile (s : KvStore) (lib : FileLib B) (disk : Disk) (path : Path) (files : Files B) :
    Except String Unit × Files B :=
  writeFile lib disk id (compressionForPath path) (Serde.encodeStore lib.toSerializer s) path files

/-- The loop that removes old backups, the oldest first. -/
def pruneBackups (disk : Disk) (dir : String) (maxVersions : Nat) :
    List (String × Nat) → Files B → Files B
  | [], files => files
  | oldest :: backups, files =>
      if (oldest :: backups).length > maxVersions then
        pruneBackups disk dir maxVersions backups
          (if disk.keeps oldest.1 then files else files.remove dir oldest.1)
      else files

/-- Copy the file of that name, if it exists, to a backup beside it and remove old backups. -/
def backup (lib : FileLib B) (disk : Disk) (dir name : String) (maxVersions : Nat)
    (files : Files B) : Except String Unit × Files B :=
  match files dir name with
  | none => (.ok (), files)
  | some b =>
      match disk.copy with
      | some e => (.error ("Failed to create backup: " ++ e), files)
      | none =>
          let files := files.put dir s!"{name}.bak.{disk.epoch}" b
          match disk.readDir with
          | some e => (.error s!"Failed to read directory {lib.debug dir}: {e}", files)
          | none =>
              let backups := disk.listing.filter fun f =>
                (name ++ ".bak.").toList.isPrefixOf f.1.toList
              let backups := backups.mergeSort fun a b => a.2 ≤ b.2
              (.ok (), pruneBackups disk dir maxVersions backups files)

/-- The temporary file that is renamed when it is complete. -/
def tmpPath (path : Path) : Path :=
  match path.extension with
  | some ext => path.withExtension (ext ++ ".tmp")
  | none => path.withExtension "tmp"

/-- Back the old file up, write the store to a temporary file beside it, and rename that. -/
def saveWithVersion (s : KvStore) (lib : FileLib B) (disk : Disk) (path : Path) (maxVersions : Nat)
    (files : Files B) : Except String Unit × Files B :=
  let compression := compressionForPath path
  match path.fileName with
  | none => (.error "invalid filename", files)
  | some name =>
      match backup lib disk path.dir name maxVersions files with
      | (.error e, files) => (.error e, files)
      | (.ok (), files) =>
          let tmp := tmpPath path
          let failure := fun e => s!"Failed to create temp file {lib.debug tmp.text}: {e}"
          match writeFile lib disk failure compression (Serde.encodeStore lib.toSerializer s) tmp
            files with
          | (.error e, files) => (.error e, files)
          | (.ok (), files) =>
              match disk.rename with
              | some e =>
                  (.error s!"Failed to rename {lib.debug tmp.text} to {lib.debug path.text}: {e}",
                    files)
              | none => (.ok (), files.rename tmp path)

/-! ## Loading -/

/-- `load_from_file`: the recency list is made from the keys. -/
def loadFromFile (lib : FileLib B) (path : Path) (files : Files B) : Except String KvStore :=
  match files.read path with
  | none => .error "No such file or directory (os error 2)"
  | some b =>
      match lib.document (compressionForPath path) b with
      | .error e => .error e
      | .ok doc =>
          match Serde.decodeStore lib.toSerializer doc with
          | none => .error (lib.mismatch doc)
          | some store => .ok { store with lruOrder := (lib.entries store.store).map Prod.fst }

theorem entries_keys_perm {lib : FileLib B} (hlib : lib.Documented) (m : Entries) :
    ((lib.entries m).map Prod.fst).Perm m.keys := by
  rw [← Std.ExtTreeMap.map_fst_toList_eq_keys]
  exact (hlib.entries_perm m).map Prod.fst

end KvStore

/-- The two methods that save. -/
inductive Save where
  | toFile
  | withVersion (maxVersions : Nat)
  deriving DecidableEq, Repr

/-- Save in one of the two ways. -/
def Save.run (save : Save) (s : KvStore) (lib : FileLib B) (disk : Disk) (path : Path)
    (files : Files B) : Except String Unit × Files B :=
  match save with
  | .toFile => s.saveToFile lib disk path files
  | .withVersion maxVersions => s.saveWithVersion lib disk path maxVersions files

/-! ## What a save that reports success leaves -/

variable {lib : FileLib B} {disk : Disk} {path : Path} {files files' : Files B}

theorem writeFile_read {failure : String → String} {compression : FileCompression} {doc : Json}
    (h : writeFile lib disk failure compression doc path files = (.ok (), files')) :
    files'.read path = some (disk.landed lib (lib.pack compression (lib.toWriterPretty doc))) := by
  unfold writeFile at h
  cases hname : path.fileName with
  | none => simp [hname] at h
  | some name =>
    cases hcreate : disk.create with
    | some e => simp [hname, hcreate] at h
    | none =>
      cases hwrite : disk.write with
      | some e => simp [hname, hcreate, hwrite] at h
      | none =>
        simp only [hname, hcreate, hwrite, Prod.mk.injEq, true_and] at h
        rw [← h]
        exact files.read_put path name _ hname

/-- The file at the path holds the document of the store, as far as the last flush brought it there,
compressed as the path says. -/
theorem save_read {save : Save} {s : KvStore} (h : save.run s lib disk path files = (.ok (), files')) :
    files'.read path = some (disk.landed lib (lib.pack (compressionForPath path)
      (lib.toWriterPretty (Serde.encodeStore lib.toSerializer s)))) := by
  cases save with
  | toFile => exact writeFile_read h
  | withVersion maxVersions =>
    simp only [Save.run, KvStore.saveWithVersion] at h
    cases hname : path.fileName with
    | none => simp [hname] at h
    | some name =>
      simp only [hname] at h
      rcases hbackup : KvStore.backup lib disk path.dir name maxVersions files with ⟨e | _, kept⟩
      · simp [hbackup] at h
      · simp only [hbackup] at h
        split at h
        · simp at h
        · rename_i written hwrite
          cases hrename : disk.rename with
          | some e => simp [hrename] at h
          | none =>
            simp only [hrename, Prod.mk.injEq, true_and] at h
            rw [← h, written.read_rename _ path name hname]
            exact writeFile_read hwrite

/-! ## What a load reads -/

namespace KvStore

/-- A value that a file can give back: its floats are finite, and it is not nested too deep for the
reader, four levels down in the document of the store. -/
def Savable (ser : Serializer) (s : KvStore) : Prop :=
  ∀ p ∈ s.store.toList, p.2.value.readable ∧ p.2.value.nestedWithin ser 123

/-- No entry of the store is written with a float. -/
def Floatless (ser : Serializer) (s : KvStore) : Prop :=
  ∀ p ∈ s.store.toList, p.2.value.floatless ser = true

instance (ser : Serializer) (s : KvStore) : Decidable (s.Floatless ser) :=
  inferInstanceAs (Decidable (∀ p ∈ s.store.toList, _))

instance (ser : Serializer) (s : KvStore) : Decidable (s.Savable ser) :=
  inferInstanceAs (Decidable (∀ p ∈ s.store.toList, _ ∧ _))

/-- A load of a whole file gives the entries and counters that were saved, or fails. -/
theorem loadFromFile_packed (hlib : lib.Documented) {s : KvStore}
    (hfloats : s.Floatless lib.toSerializer ∨ lib.ReadsFloats)
    (hread : files.read path = some (lib.pack (compressionForPath path)
      (lib.toWriterPretty (Serde.encodeStore lib.toSerializer s)))) :
    (s.Savable lib.toSerializer ∧ loadFromFile lib path files = .ok
        { store := s.store, stats := s.stats, lruOrder := (lib.entries s.store).map Prod.fst }) ∨
      (¬ s.Savable lib.toSerializer ∧ ∃ e, loadFromFile lib path files = .error e) := by
  have hdepth := Serde.encodeStore_depth_le_iff hlib.toDocumented s 121
  have hdecode := Serde.decodeStore_encodeStore hlib.toDocumented s
  have hdocument : lib.document (compressionForPath path) (lib.pack (compressionForPath path)
      (lib.toWriterPretty (Serde.encodeStore lib.toSerializer s)))
      = lib.fromReader (lib.toWriterPretty (Serde.encodeStore lib.toSerializer s)) := by
    rw [FileLib.document, hlib.unpack_pack]
    rfl
  by_cases hnested : ∀ p ∈ s.store.toList, p.2.value.nestedWithin lib.toSerializer 123
  · have hdepth128 : (Serde.encodeStore lib.toSerializer s).depth < 128 :=
      Nat.lt_succ_of_le (hdepth.2 hnested)
    have hshallow : lib.fromReader (lib.toWriterPretty (Serde.encodeStore lib.toSerializer s))
        = .ok (Serde.encodeStore lib.toSerializer s).written := by
      rcases hfloats with hnone | hexact
      · exact hlib.fromReader_shallow _ hdepth128 (Serde.encodeStore_floatless hlib.toDocumented hnone)
      · exact hexact _ hdepth128
    by_cases hreadable : ∀ p ∈ s.store.toList, p.2.value.readable
    · have hall : s.store.toList.all (fun p => p.2.value.readable) = true := List.all_eq_true.2 hreadable
      refine .inl ⟨fun p hp => ⟨hreadable p hp, hnested p hp⟩, ?_⟩
      simp [loadFromFile, hread, hdocument, hshallow, hdecode, hall]
    · have hall : s.store.toList.all (fun p => p.2.value.readable) = false := by
        simpa using hreadable
      refine .inr ⟨fun h => hreadable fun p hp => (h p hp).1, ?_⟩
      simp [loadFromFile, hread, hdocument, hshallow, hdecode, hall]
  · have hdeep : 128 ≤ (Serde.encodeStore lib.toSerializer s).depth := by
      have := mt hdepth.1 hnested
      omega
    obtain ⟨e, he⟩ := hlib.fromReader_deep _ hdeep
    refine .inr ⟨fun h => hnested fun p hp => (h p hp).2, e, ?_⟩
    simp [loadFromFile, hread, hdocument, he]

/-- A load of a file that lost its end fails. -/
theorem loadFromFile_cut (hlib : lib.Documented) {s : KvStore} {n : Nat}
    (hread : files.read path = some (lib.cut n (lib.pack (compressionForPath path)
      (lib.toWriterPretty (Serde.encodeStore lib.toSerializer s))))) :
    ∃ e, loadFromFile lib path files = .error e := by
  have hcut : ∃ e, lib.document (compressionForPath path)
      (lib.cut n (lib.pack (compressionForPath path)
        (lib.toWriterPretty (Serde.encodeStore lib.toSerializer s)))) = .error e :=
    hlib.document_cut _ n _
  obtain ⟨e, he⟩ := hcut
  exact ⟨e, by simp only [loadFromFile, hread, he]⟩

end KvStore

end Daikon
