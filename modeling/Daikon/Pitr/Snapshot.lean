/-
# Daikon.Pitr.Snapshot -- snapshots, and recovery to a point in time (`pitr.rs`)

A snapshot is a file of the store's entries and counters, named after the nanosecond at which it was
made. Recovery takes the newest snapshot that is not past the target and carries the log out on it,
from the first entry up to the first one past the target; log entries are stamped in seconds.

The functions of the source stand here under their names, with their loops and their errors: the listing is
an argument because a directory gives its files in no order, and so are the clocks and the outcome of every
call to the file system. Serialisation, compression and the cipher are the fields of a `SnapshotCodec`; what
a proof needs of them it says as a hypothesis.

Two places are kept as the code has them though they surprise: the clean-up compares the nanoseconds of a
name with a cutoff in seconds, and the recovery begins with the first entry of the log whatever the snapshot
holds. `Daikon.Pitr.Cleanup` and `Daikon.Pitr.Recover` say what follows from them.
-/
import Daikon.Recovery.Crash
import Daikon.Recovery.Interpreters
import Daikon.Wal.File
import Mathlib.Data.List.Sort

namespace Daikon

/-! ## File names -/

/-- How a new snapshot is compressed. A file says it in its name. -/
inductive SnapshotCompression where
  | none
  | gzip
  | zstd
  deriving DecidableEq, Repr

/-- `str::strip_prefix`. -/
def stripPrefix (pre s : String) : Option String :=
  if pre.toList.isPrefixOf s.toList then some (String.ofList (s.toList.drop pre.length)) else none

/-- `str::strip_suffix`. -/
def stripSuffix (suf s : String) : Option String :=
  if suf.toList.isSuffixOf s.toList then some (String.ofList (s.toList.take (s.length - suf.length)))
  else none

/-- `str::parse::<u64>`. -/
def parseU64 (s : String) : Option Nat :=
  match s.toList with
  | '+' :: ds => (parseDigits ds).bind fun n => if n < 2 ^ 64 then some n else none
  | ds => (parseDigits ds).bind fun n => if n < 2 ^ 64 then some n else none

namespace SnapshotCompression

/-- `file_suffix`: the extension of the files of this compression. -/
def fileSuffix : SnapshotCompression → String
  | none => ".json"
  | gzip => ".json.gz"
  | zstd => ".json.zst"

/-- The extension of a snapshot, with encryption at rest enabled or not. -/
def encryptedSuffix (compression : SnapshotCompression) (enabled : Bool) : String :=
  if enabled then compression.fileSuffix ++ ".enc" else compression.fileSuffix

/-- The compression of a file, read off its name, with or without the mark of encryption. -/
def fromSnapshotFilename (filename : String) : Option SnapshotCompression :=
  let filename := (stripSuffix ".enc" filename).getD filename
  if (stripSuffix ".json" filename).isSome then some none
  else if (stripSuffix ".json.gz" filename).isSome then some gzip
  else if (stripSuffix ".json.zst" filename).isSome then some zstd
  else Option.none

end SnapshotCompression

/-- The nanoseconds in the name of a snapshot: what stands between `snapshot_` and the extension, up to a
suffix that made the name unique. Files of other names are no snapshots. -/
def extractSnapshotTimestamp (filename : String) : Option Nat :=
  let filename := (stripSuffix ".enc" filename).getD filename
  let core := (stripPrefix "snapshot_" filename).bind fun core =>
    ((stripSuffix ".json" core).or (stripSuffix ".json.gz" core)).or (stripSuffix ".json.zst" core)
  core.bind fun core => parseU64 (String.ofList (core.toList.takeWhile (· ≠ '_')))

/-! ## Files -/

/-- The fields of the store that are not skipped when it is written. -/
structure SavedStore where
  store : Entries := ∅
  stats : StoreStats := {}
  deriving DecidableEq

/-- What is written of a store. -/
def KvStore.saved (s : KvStore) : SavedStore := { store := s.store, stats := s.stats }

/-- What reading them back makes: the skipped fields have their defaults. -/
def SavedStore.toStore (saved : SavedStore) : KvStore := { store := saved.store, stats := saved.stats }

/-- `serde_json` on stores, the compression libraries and the encryption at rest. An error is its
text. -/
structure SnapshotCodec where
  /-- `serde_json::to_vec_pretty`. -/
  toVecPretty : SavedStore → Except String Bytes
  /-- `serde_json::from_slice`. -/
  fromSlice : Bytes → Except String SavedStore
  gzip : Bytes → Except String Bytes
  gunzip : Bytes → Except String Bytes
  zstd : Bytes → Except String Bytes
  unzstd : Bytes → Except String Bytes
  crypto : Crypto
  /-- The mode of the environment. -/
  compression : SnapshotCompression := .none

/-- A file of the snapshot directory. -/
structure SnapshotFile where
  name : String
  bytes : Bytes
  /-- History, read by nothing: the number of log entries when the file was written. -/
  logged : Nat
  deriving DecidableEq

/-- What `list_snapshots` tells of a snapshot. The two numbers are those of the store and the log when it
was made, and zero in a list, for the files are not read. -/
structure SnapshotMetadata where
  timestamp : Nat
  numKeys : Nat
  numOperations : Nat
  snapshotFile : String
  deriving DecidableEq

/-- What the environment decides while a snapshot is made. -/
structure SnapshotIo where
  nanos : Nat
  nonce : Option Nonce := none
  /-- The error of writing the file, with the bytes that reached it if it was created. -/
  write : Option (KvStoreError × Option Bytes) := none
  /-- The error of reading the log, if it fails. -/
  readAll : Option KvStoreError := none

namespace SnapshotCodec

/-- `crypto::enabled`. -/
def enabled (c : SnapshotCodec) : Bool :=
  match c.crypto.keyFromEnv with
  | .ok key => key.isSome
  | .error _ => false

/-- The bytes of a snapshot of the store. -/
def encode (c : SnapshotCodec) (nonce : Option Nonce) (store : KvStore) : Except KvStoreError Bytes :=
  match c.toVecPretty store.saved with
  | .error e => .error (.serializationError e)
  | .ok json =>
      let compressed : Except String Bytes := match c.compression with
        | .none => .ok json
        | .gzip => c.gzip json
        | .zstd => c.zstd json
      match compressed with
      | .error e => .error (.ioError e)
      | .ok compressed =>
          match c.crypto.encrypt nonce compressed with
          | .error e => .error (.operationFailed e)
          | .ok bytes => .ok bytes

/-- The store in a snapshot file. -/
def decode (c : SnapshotCodec) (file : SnapshotFile) : Except KvStoreError KvStore :=
  match c.crypto.decrypt file.bytes with
  | .error e => .error (.operationFailed e)
  | .ok bytes =>
      match SnapshotCompression.fromSnapshotFilename file.name with
      | none => .error (.operationFailed s!"Unsupported snapshot extension: {file.name}")
      | some compression =>
          let json : Except String Bytes := match compression with
            | .none => .ok bytes
            | .gzip => c.gunzip bytes
            | .zstd => c.unzstd bytes
          match json.bind c.fromSlice with
          | .error e => .error (.serializationError e)
          | .ok saved => .ok saved.toStore

end SnapshotCodec

/-- Without encryption and compression, the stores of a list with their texts. -/
def SnapshotCodec.plain (samples : List (SavedStore × String)) : SnapshotCodec where
  toVecPretty saved := (samples.find? fun p => p.1 = saved).elim (.error "unsupported store")
    fun p => .ok (utf8 p.2)
  fromSlice json := (samples.find? fun p => utf8 p.2 = json).elim (.error "unsupported text")
    fun p => .ok p.1
  gzip _ := .error "unsupported"
  gunzip _ := .error "unsupported"
  zstd _ := .error "unsupported"
  unzstd _ := .error "unsupported"
  crypto := (Codec.plain []).crypto

namespace Pitr

/-! ## Making and listing snapshots -/

/-- The first name that is not taken, from the n-th suffix on. -/
def freshName (names : List String) (timestamp : Nat) (extension : String) : Nat → Nat → String
  | 0, suffix => s!"snapshot_{timestamp}_{suffix}{extension}"
  | fuel + 1, suffix =>
      let name := s!"snapshot_{timestamp}_{suffix}{extension}"
      if name ∈ names then freshName names timestamp extension fuel (suffix + 1) else name

/-- The name of a new snapshot. -/
def snapshotFilename (names : List String) (timestamp : Nat) (extension : String) : String :=
  let name := s!"snapshot_{timestamp}{extension}"
  if name ∈ names then freshName names timestamp extension names.length 1 else name

/-- Write the store to a new file. The time stamp is the clock in nanoseconds, cut to 64 bits. -/
def createSnapshot (c : SnapshotCodec) (io : SnapshotIo) (dir : List SnapshotFile)
    (wal : List WalEntry) (store : KvStore) : Except KvStoreError SnapshotMetadata × List SnapshotFile :=
  let timestamp := io.nanos % 2 ^ 64
  let name := snapshotFilename (dir.map SnapshotFile.name) timestamp
    (c.compression.encryptedSuffix c.enabled)
  match c.encode io.nonce store with
  | .error e => (.error e, dir)
  | .ok bytes =>
      match io.write with
      -- the file is not written to the side first, so a failed write leaves its part
      | some (e, left) => (.error e, dir ++ (left.map fun bytes => ⟨name, bytes, wal.length⟩).toList)
      | none =>
          let dir := dir ++ [⟨name, bytes, wal.length⟩]
          match io.readAll with
          -- the log is read for its length only; the file stays
          | some e => (.error e, dir)
          | none => (.ok ⟨timestamp, store.store.size, wal.length, name⟩, dir)

/-- `list_snapshots` of the files in the order in which the directory gives them: newest first. -/
def listSnapshots (listing : List SnapshotFile) : List SnapshotMetadata :=
  (listing.filterMap fun file =>
    (extractSnapshotTimestamp file.name).map fun timestamp => ⟨timestamp, 0, 0, file.name⟩).insertionSort
      fun a b => b.timestamp ≤ a.timestamp

/-- The loop of `cleanup_old_snapshots` over the files that the directory gives: it ends with the
first file that cannot be removed. -/
def cleanupLoop (cutoff : Nat) (removeFile : String → Option KvStoreError) :
    List SnapshotFile → Nat → List SnapshotFile → Except KvStoreError Nat × List SnapshotFile
  | [], deleted, dir => (.ok deleted, dir)
  | file :: files, deleted, dir =>
      match extractSnapshotTimestamp file.name with
      | none => cleanupLoop cutoff removeFile files deleted dir
      | some timestamp =>
          if timestamp < cutoff then
            match removeFile file.name with
            | some e => (.error e, dir)
            | none =>
                cleanupLoop cutoff removeFile files (deleted + 1) (dir.filter (·.name ≠ file.name))
          else cleanupLoop cutoff removeFile files deleted dir

/-- The cutoff is in seconds; the names carry nanoseconds. -/
def cleanupOldSnapshots (now maxAgeSecs : Nat) (listing : Except KvStoreError (List SnapshotFile))
    (removeFile : String → Option KvStoreError) (dir : List SnapshotFile) :
    Except KvStoreError Nat × List SnapshotFile :=
  match listing with
  | .error e => (.error e, dir)
  | .ok files => cleanupLoop (now - maxAgeSecs) removeFile files 0 dir

/-! ## Recovery -/

/-- What the environment gives a recovery. -/
structure RecoverIo where
  /-- The files, in the order of the directory. -/
  listing : Except KvStoreError (List SnapshotFile)
  readFile : Option KvStoreError := none
  readAll : Except KvStoreError (List WalEntry)
  /-- The clock as the n-th entry is carried out. -/
  clock : Nat → Nat

/-- The newest snapshot that is not past the target. -/
def baseSnapshot (listing : List SnapshotFile) (target : Nat) : Option SnapshotMetadata :=
  (listSnapshots listing).find? fun s => s.timestamp ≤ target

/-- `fs::read` of a snapshot. -/
def readSnapshot (io : RecoverIo) (listing : List SnapshotFile) (name : String) :
    Except KvStoreError SnapshotFile :=
  match io.readFile, listing.find? fun file => file.name = name with
  | some e, _ => .error e
  | none, some file => .ok file
  | none, none => .error (.ioError "No such file or directory (os error 2)")

/-- The store that recovery starts from. -/
def baseStore (c : SnapshotCodec) (io : RecoverIo) (listing : List SnapshotFile) (target : Nat) :
    Except KvStoreError KvStore :=
  match baseSnapshot listing target with
  | some snapshot => (readSnapshot io listing snapshot.snapshotFile).bind c.decode
  | none => .ok KvStore.new

/-- The store of the newest snapshot that is not past the target (of none, an empty store), with the log up
to the target carried out on it. Snapshots count in nanoseconds, the log in seconds, and the target is
compared with both as it is. -/
def recoverToTimestamp (c : SnapshotCodec) (rt : Runtime) (io : RecoverIo) (target : Nat) :
    Except KvStoreError KvStore :=
  match io.listing with
  | .error e => .error e
  | .ok listing =>
      match baseStore c io listing target with
      | .error e => .error e
      | .ok store =>
          match io.readAll with
          | .error e => .error e
          | .ok wal => .ok (replayTo rt target (stamped io.clock wal) store)

/-- A recovery to the time stamp of the newest snapshot. -/
def recoverToLatestSnapshot (c : SnapshotCodec) (rt : Runtime) (io : RecoverIo) :
    Except KvStoreError KvStore :=
  match io.listing with
  | .error e => .error e
  | .ok listing =>
      match listSnapshots listing with
      | [] => .error (.operationFailed "No snapshots available for recovery")
      | latest :: _ => recoverToTimestamp c rt io latest.timestamp

end Pitr

end Daikon
