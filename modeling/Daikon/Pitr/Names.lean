/-
# Daikon.Pitr.Names -- a new snapshot has a free name that is read back (`pitr.rs`)

`create_snapshot` counts up until its name is free. A directory has finitely many names, so the loop is
left, after no more turns than there are names and one (`nameTurn_stops`), and no file is overwritten. The
name tells the time stamp and the compression, encrypted or not, so the snapshot is listed and is decoded by
what undoes its compression.

The loop is written with fuel in `freshName`, so its end is a theorem and not a matter of definition:
`nameTurn` is one turn of the source's loop, and it stops before the fuel runs out. The names it tries are
all different, and a directory with n names cannot hold n + 1 of them.

`snapshot_name_fresh_and_decodable` puts the three facts together for one creation: the name was free, all
other files stay as they are, and the file is listed under its time stamp and decoded by what undoes its
settings, also where the settings of the process that reads are others.
-/
import Daikon.Lib.Loop
import Daikon.Pitr.Cleanup

namespace Daikon

namespace SnapshotCompression

/-- Of the three extensions, the one that was written is recognised. -/
theorem fromSnapshotFilename_append (xs : List Char) (compression : SnapshotCompression) (enabled : Bool) :
    fromSnapshotFilename (String.ofList (xs ++ (compression.encryptedSuffix enabled).toList))
      = some compression := by
  unfold fromSnapshotFilename
  simp only [stripSuffix_encrypted]
  cases compression with
  | none => rw [fileSuffix, stripSuffix_append, Option.isSome_some, if_pos rfl]
  | gzip =>
      have hjson : stripSuffix ".json" (String.ofList (xs ++ ".json.gz".toList)) = Option.none :=
        stripSuffix_none (c := 'z') (d := 'n') (by simp) (by decide) (by decide)
      rw [fileSuffix, hjson, stripSuffix_append, Option.isSome_none, Option.isSome_some,
        if_neg Bool.false_ne_true, if_pos rfl]
  | zstd =>
      have hjson : stripSuffix ".json" (String.ofList (xs ++ ".json.zst".toList)) = Option.none :=
        stripSuffix_none (c := 't') (d := 'n') (by simp) (by decide) (by decide)
      have hgz : stripSuffix ".json.gz" (String.ofList (xs ++ ".json.zst".toList)) = Option.none :=
        stripSuffix_none (c := 't') (d := 'z') (by simp) (by decide) (by decide)
      rw [fileSuffix, hjson, hgz, stripSuffix_append, Option.isSome_none, Option.isSome_some,
        if_neg Bool.false_ne_true, if_neg Bool.false_ne_true, if_pos rfl]

theorem fromSnapshotFilename_snapshotName (timestamp : Nat) (suffix : Option Nat)
    (compression : SnapshotCompression) (enabled : Bool) :
    fromSnapshotFilename (snapshotName timestamp suffix (compression.encryptedSuffix enabled))
      = some compression := by
  unfold snapshotName
  simp only [← List.append_assoc]
  exact fromSnapshotFilename_append _ compression enabled

end SnapshotCompression

namespace SnapshotCodec

/-- What undoes a compression. -/
def decompress (c : SnapshotCodec) (compression : SnapshotCompression) (bytes : Bytes) :
    Except String Bytes :=
  match compression with
  | .none => .ok bytes
  | .gzip => c.gunzip bytes
  | .zstd => c.unzstd bytes

/-- The bytes of a snapshot, decrypted and decompressed from one mode. -/
def decodeAs (c : SnapshotCodec) (compression : SnapshotCompression) (bytes : Bytes) :
    Except KvStoreError KvStore :=
  ((c.crypto.decrypt bytes).mapError .operationFailed).bind fun bytes =>
    (((c.decompress compression bytes).bind c.fromSlice).mapError .serializationError).map
      SavedStore.toStore

theorem decode_eq_decodeAs (c : SnapshotCodec) {file : SnapshotFile} {compression : SnapshotCompression}
    (h : SnapshotCompression.fromSnapshotFilename file.name = some compression) :
    c.decode file = c.decodeAs compression file.bytes := by
  unfold decode decodeAs
  cases c.crypto.decrypt file.bytes with
  | error e => rfl
  | ok bytes =>
      simp only [h]
      show _ = (((c.decompress compression bytes).bind c.fromSlice).mapError _).map _
      cases compression <;> unfold decompress <;> split <;> next heq => rw [heq]; rfl

end SnapshotCodec

namespace Pitr

open Lib.Loop

section

variable (names : List String) (timestamp : Nat) (extension : String)

/-- One turn of the naming loop of `create_snapshot`, on the name and the next suffix: it is left as soon as
the name is free. -/
def nameTurn : String × Nat → Option (String × Nat)
  | (name, suffix) =>
      if name ∈ names then some (s!"snapshot_{timestamp}_{suffix}{extension}", suffix + 1) else none

/-- From the name with a suffix on, the loop is left where the search by fuel ends. -/
theorem nameTurn_stops_fresh (fuel : Nat) : ∀ suffix,
    freshName names timestamp extension fuel suffix ∉ names →
      ∃ turns ≤ fuel, Stops (nameTurn names timestamp extension)
        (s!"snapshot_{timestamp}_{suffix}{extension}", suffix + 1) turns
        (freshName names timestamp extension fuel suffix, suffix + 1 + turns) := by
  induction fuel with
  | zero =>
      intro suffix hfree
      exact ⟨0, le_rfl, .left (if_neg hfree)⟩
  | succ fuel ih =>
      intro suffix hfree
      unfold freshName at hfree ⊢
      simp only at hfree ⊢
      by_cases htaken : s!"snapshot_{timestamp}_{suffix}{extension}" ∈ names
      · rw [if_pos htaken] at hfree ⊢
        obtain ⟨turns, hturns, hrest⟩ := ih (suffix + 1) hfree
        refine ⟨turns + 1, Nat.succ_le_succ hturns, .next (if_pos htaken) ?_⟩
        rwa [Nat.add_right_comm (suffix + 1) 1 turns] at hrest
      · rw [if_neg htaken]
        exact ⟨0, Nat.zero_le _, .left (if_neg htaken)⟩

/-- The naming loop is left with the name that is free; the suffix grows by one in each turn. -/
theorem nameTurn_stops : ∃ turns ≤ names.length + 1, Stops (nameTurn names timestamp extension)
    (s!"snapshot_{timestamp}{extension}", 1) turns
    (snapshotFilename names timestamp extension, 1 + turns) := by
  have hfree := freshName_not_mem names timestamp extension
  unfold snapshotFilename
  simp only
  by_cases htaken : s!"snapshot_{timestamp}{extension}" ∈ names
  · rw [if_pos htaken]
    obtain ⟨turns, hturns, hrest⟩ :=
      nameTurn_stops_fresh names timestamp extension names.length 1 hfree
    refine ⟨turns + 1, Nat.succ_le_succ hturns, .next (if_pos htaken) ?_⟩
    rwa [Nat.add_right_comm 1 1 turns] at hrest
  · rw [if_neg htaken]
    exact ⟨0, Nat.zero_le _, .left (if_neg htaken)⟩

end

/-- What a creation under a name may leave: its metadata tell of the file that was added, and without
metadata there is at most that file more. -/
def CreatedAs (timestamp : Nat) (name : String) (dir : List SnapshotFile) (logged : Nat) :
    Except KvStoreError SnapshotMetadata × List SnapshotFile → Prop
  | (.ok metadata, files) => metadata.timestamp = timestamp ∧ metadata.snapshotFile = name ∧
      ∃ bytes, files = dir ++ [⟨name, bytes, logged⟩]
  | (.error _, files) => files = dir ∨ ∃ bytes, files = dir ++ [⟨name, bytes, logged⟩]

theorem createSnapshot_createdAs (c : SnapshotCodec) (io : SnapshotIo) (dir : List SnapshotFile)
    (wal : List WalEntry) (store : KvStore) :
    CreatedAs (io.nanos % 2 ^ 64)
      (snapshotFilename (dir.map SnapshotFile.name) (io.nanos % 2 ^ 64)
        (c.compression.encryptedSuffix c.enabled))
      dir wal.length (createSnapshot c io dir wal store) := by
  unfold createSnapshot
  cases c.encode io.nonce store with
  | error e => exact .inl rfl
  | ok bytes =>
      cases io.write with
      | none =>
          cases io.readAll with
          | none => exact ⟨rfl, rfl, bytes, rfl⟩
          | some e => exact .inr ⟨bytes, rfl⟩
      | some failure =>
          obtain ⟨e, left⟩ := failure
          cases left with
          | none => exact .inl (List.append_nil dir)
          | some part => exact .inr ⟨part, rfl⟩

/-- A file whose name has a time stamp is listed, wherever the directory gives it. -/
theorem listed_of_extract {file : SnapshotFile} {timestamp : Nat}
    (h : extractSnapshotTimestamp file.name = some timestamp) (before after : List SnapshotFile) :
    ⟨timestamp, 0, 0, file.name⟩ ∈ listSnapshots (before ++ file :: after) := by
  unfold listSnapshots
  rw [List.mem_insertionSort, List.mem_filterMap]
  refine ⟨file, List.mem_append_right before List.mem_cons_self, ?_⟩
  rw [h, Option.map_some]

/-- For every clock, directory, compression and encryption setting. The naming loop of `create_snapshot` is
left with a name that is not in the directory, so a creation adds a file or nothing and overwrites none. The
time stamp and the compression are read back from that name. So the file is listed whatever else the
directory gives, and every recovery, under whatever settings of its own, undoes the compression it was made
with. The suffix stays below the number of names and three. -/
theorem snapshot_name_fresh_and_decodable (c : SnapshotCodec) (io : SnapshotIo)
    (dir : List SnapshotFile) :
    let names := dir.map SnapshotFile.name
    let timestamp := io.nanos % 2 ^ 64
    let extension := c.compression.encryptedSuffix c.enabled
    let name := snapshotFilename names timestamp extension
    (∃ turns ≤ names.length + 1, Stops (nameTurn names timestamp extension)
      (s!"snapshot_{timestamp}{extension}", 1) turns (name, 1 + turns)) ∧
    name ∉ names ∧
    extractSnapshotTimestamp name = some timestamp ∧
    SnapshotCompression.fromSnapshotFilename name = some c.compression ∧
    (∀ wal store, CreatedAs timestamp name dir wal.length (createSnapshot c io dir wal store)) ∧
    ∀ bytes logged,
      (∀ before after, ⟨timestamp, 0, 0, name⟩ ∈ listSnapshots (before ++ ⟨name, bytes, logged⟩ :: after)) ∧
      ∀ reader : SnapshotCodec, reader.decode ⟨name, bytes, logged⟩ = reader.decodeAs c.compression bytes := by
  intro names timestamp extension name
  have hstamp : extractSnapshotTimestamp name = some timestamp :=
    extract_snapshotFilename names (Nat.mod_lt _ (Nat.two_pow_pos 64)) c.compression c.enabled
  have hmode : SnapshotCompression.fromSnapshotFilename name = some c.compression := by
    obtain ⟨suffix, hname⟩ := snapshotFilename_eq names timestamp extension
    rw [show name = _ from hname]
    exact SnapshotCompression.fromSnapshotFilename_snapshotName timestamp suffix c.compression c.enabled
  refine ⟨nameTurn_stops names timestamp extension, snapshotFilename_not_mem names timestamp extension,
    hstamp, hmode, createSnapshot_createdAs c io dir, fun bytes logged => ⟨?_, ?_⟩⟩
  · exact @listed_of_extract ⟨name, bytes, logged⟩ timestamp hstamp
  · exact fun reader => reader.decode_eq_decodeAs hmode

end Pitr

end Daikon
