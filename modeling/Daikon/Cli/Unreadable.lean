/-
# Daikon.Cli.Unreadable -- a file that cannot be loaded, and the commands that replace it

After a load that failed a run goes on with a new store, and the save at its end puts that store in the
place of the file. So the file is left alone where the command does not come to a save or the save fails
before the rename, and is replaced else (`unreadable_file_kept`). A store that began empty holds no float and
no JSON value (`Commands.run_ends`), so what replaces the file can always be loaded.

A save can fail before the rename, and then the file is as it was, or after it, in which case the new file
stands. `writeFile_steps` lists the steps in order and `saveWithVersion_ok_iff` says when all of them go
through. The result is per run of the command line and for every environment.

`Commands.Ends` is an inductive relation rather than a computation, since for this file it is enough to know
how a command can end: without a save, with an error, or with a store that can be written and read. The one
command the result does not speak of is `mget`: it only reads, and saves.
-/
import Daikon.Api.Effects
import Daikon.Cli.Main
import Daikon.Store.Atomic
import Daikon.Store.Isolation
import Daikon.Store.Plain
import Daikon.Recovery.SaveLoad

namespace Daikon

variable {B : Type} {lib : FileLib B} {env : CliEnv B} {path : Path} {files : Files B}

/-! ## Saves on a disk with failures -/

/-- Every file operation of a save whose error is looked at succeeds. -/
structure Disk.Works (disk : Disk) : Prop where
  copy : disk.copy = none
  readDir : disk.readDir = none
  create : disk.create = none
  write : disk.write = none
  rename : disk.rename = none

section

variable {disk : Disk} {failure : String → String} {compression : FileCompression} {doc : Json}
  {name : String}

theorem writeFile_ok (hname : path.fileName = some name) (hcreate : disk.create = none)
    (hwrite : disk.write = none) : (writeFile lib disk failure compression doc path files).1 = .ok () := by
  unfold writeFile
  simp only [hname, hcreate, hwrite]

theorem writeFile_steps {written : Files B}
    (h : writeFile lib disk failure compression doc path files = (.ok (), written)) :
    disk.create = none ∧ disk.write = none := by
  unfold writeFile at h
  cases hname : path.fileName with
  | none => simp [hname] at h
  | some name =>
      cases hcreate : disk.create with
      | some e => simp [hname, hcreate] at h
      | none =>
          cases hwrite : disk.write with
          | some failed => simp [hname, hcreate, hwrite] at h
          | none => exact ⟨rfl, rfl⟩

theorem writeFile_other (hname : path.fileName = some name) {n : String} (hne : n ≠ name) :
    (writeFile lib disk failure compression doc path files).2 path.dir n = files path.dir n := by
  unfold writeFile
  rw [hname]
  cases disk.create with
  | some e => rfl
  | none =>
      cases disk.write with
      | some failed => exact files.put_of_ne _ hne
      | none => exact files.put_of_ne _ hne

end

namespace KvStore

/-- Where there is a file to be replaced, a save succeeds if the disk works. -/
theorem saveWithVersion_ok_iff (s : KvStore) (disk : Disk) (maxVersions : Nat)
    (hfile : files.read path ≠ none) :
    (s.saveWithVersion lib disk path maxVersions files).1 = .ok () ↔ disk.Works := by
  obtain ⟨name, hname⟩ : ∃ name, path.fileName = some name :=
    Option.ne_none_iff_exists'.mp fun hnone => hfile (by rw [Files.read, hnone]; rfl)
  rw [Files.read_eq _ hname] at hfile
  rw [saveWithVersion_eq]
  constructor
  · intro hok
    obtain ⟨hbackup, hrename, failure, kept, written, hwrite⟩ :=
      saveWithVersionThrough_ok hname (Prod.ext hok rfl)
    obtain ⟨hcreate, hwritten⟩ := writeFile_steps hwrite
    have hsteps := (backup_ok_iff ..).mp hbackup
    rw [not_and, not_or] at hsteps
    obtain ⟨hcopy, hread⟩ := hsteps hfile
    exact ⟨not_not.mp hcopy, not_not.mp hread, hcreate, hwritten, hrename⟩
  · intro hworks
    have hbackup : (backup lib disk path.dir name maxVersions files).1 = .ok () :=
      (backup_ok_iff ..).mpr fun h => h.2.elim (· hworks.copy) (· hworks.readDir)
    unfold saveWithVersionThrough
    rw [hname]
    rcases hkept : backup lib disk path.dir name maxVersions files with ⟨answer, kept⟩
    obtain rfl : answer = .ok () := by rwa [hkept] at hbackup
    simp only [hkept]
    generalize (fun e : String => s!"Failed to create temp file {lib.debug (tmpPath path).text}: {e}")
      = failure
    have hwritten : (writeFile lib disk failure (compressionForPath path)
        (Serde.encodeStore lib.toSerializer s) (tmpPath path) kept).1 = .ok () :=
      writeFile_ok (tmpPath_fileName_eq hname) hworks.create hworks.write
    rcases hwrite : writeFile lib disk failure (compressionForPath path)
      (Serde.encodeStore lib.toSerializer s) (tmpPath path) kept with ⟨answer, written⟩
    obtain rfl : answer = .ok () := by rwa [hwrite] at hwritten
    simp only [hworks.rename]

theorem saveWithVersion_error {s : KvStore} {disk : Disk} {maxVersions : Nat} {e : String}
    {files' : Files B} (h : s.saveWithVersion lib disk path maxVersions files = (.error e, files')) :
    files'.read path = files.read path := by
  rw [saveWithVersion_eq] at h
  refine saveWithVersionThrough_error ?_ h
  intro failure kept name tmp hname htmp hne
  rw [← tmpPath_dir path]
  exact writeFile_other htmp hne.symm

end KvStore

/-! ## Commands -/

/-- The command comes to a save: it does not only read, or is `mget`, and its pipeline file is read. -/
def Commands.saves (env : CliEnv B) (files : Files B) : Commands → Bool
  | .get _ | .list | .load | .exists_ _ | .keys _ | .stats | .pfCount _ | .benchmark | .lRange _ _ _
  | .lLen _ => false
  | .pipeline file => ((files.read file).bind env.pipeline).isSome
  | _ => true

theorem PipeCmd.run_plain (rt : Runtime) {store : KvStore} (h : store.Plain) (now : Nat) (cmd : PipeCmd) :
    (cmd.run now store).Plain := by
  have hwrite : ∀ w : Write, w.plain = true → (store.write rt now w).2.Plain := fun w hw =>
    h.write rt now hw
  cases cmd with
  | get key => exact h
  | exists_ key => exact h
  | lRange key start stop => exact h
  | lLen key => exact h
  | set key value => exact hwrite (.set key (.str value)) rfl
  | delete key => exact hwrite (.delete key) rfl
  | incr key => exact hwrite (.incr key) rfl
  | decr key => exact hwrite (.decr key) rfl
  | incrBy key amount => exact hwrite (.incrby key amount) rfl
  | append key value => exact hwrite (.append key value) rfl
  | getSet key value => exact hwrite (.getset key (.str value)) rfl
  | lPush key values => exact hwrite (.lpush key values) rfl
  | rPush key values => exact hwrite (.rpush key values) rfl
  | lPop key => exact hwrite (.lpop key) rfl
  | rPop key => exact hwrite (.rpop key) rfl

theorem LuaCall.run_plain (rt : Runtime) {store : KvStore} (h : store.Plain) (now : Nat) (call : LuaCall) :
    (call.run now store).Plain := by
  rw [Server.luaCall_run rt]
  cases call <;> exact h.write rt now rfl

/-- How the `match` of `main` ends: a return, a command that only reads, the command `save`, and a command
that leaves a store for the save at the end. -/
inductive Commands.Ends (lib : FileLib B) (env : CliEnv B) (path : Path) (store : KvStore) (files : Files B)
    (command : Commands) : Option (Ran B) → Prop
  | returned (h : command.saves env files = false) : Ends lib env path store files command none
  | read (h : command.saves env files = false) (s : KvStore) :
      Ends lib env path store files command (some ⟨s, files, false⟩)
  | saved (h : command.saves env files = true) (versions : Nat) : Ends lib env path store files command
      (some ⟨store, (store.saveWithVersion lib env.disk path versions files).2, false⟩)
  | changed (h : command.saves env files = true) {s : KvStore} (hs : s.Plain) :
      Ends lib env path store files command (some ⟨s, files, true⟩)

theorem Commands.run_ends {store : KvStore} (h : store.Plain) (hqueue : store.transactionQueue = none)
    (command : Commands) :
    command.Ends lib env path store files (command.run lib env path store files) := by
  have hwrite : ∀ w : Write, w.plain = true → (store.write env.rt (env.now 0) w).2.Plain := fun w hw =>
    h.write env.rt (env.now 0) hw
  cases command with
  | get key => exact .read rfl _
  | list => exact .read rfl _
  | exists_ keys => exact .read rfl _
  | keys pattern => exact .read rfl _
  | stats => exact .read rfl _
  | pfCount key => exact .read rfl _
  | benchmark => exact .read rfl _
  | lRange key start stop => exact .read rfl _
  | lLen key => exact .read rfl _
  | load =>
      rw [run]
      cases KvStore.loadFromFile lib path files with
      | ok loadedStore => exact .read rfl _
      | error e => exact .read rfl _
  | save versions => exact .saved rfl versions
  | set key value => exact .changed rfl (hwrite (.set key (.str value)) rfl)
  | setTTL key value ttl => exact .changed rfl (hwrite (.setWithTtl key (.str value) ttl) rfl)
  | delete key => exact .changed rfl (hwrite (.delete key) rfl)
  | incr key => exact .changed rfl (hwrite (.incr key) rfl)
  | decr key => exact .changed rfl (hwrite (.decr key) rfl)
  | incrBy key amount => exact .changed rfl (hwrite (.incrby key amount) rfl)
  | append key value => exact .changed rfl (hwrite (.append key value) rfl)
  | getSet key value => exact .changed rfl (hwrite (.getset key (.str value)) rfl)
  | mGet keys => exact .changed rfl h
  | mSet pairs =>
      rw [run]
      split
      · exact .changed rfl h
      · exact .changed rfl (hwrite (.mset (chunkPairs pairs)) rfl)
  | cleanup =>
      refine .changed rfl (KvStore.Plain.of_within (fun k => ?_) h)
      simp only [KvStore.cleanupExpired_contents]
      split
      · exact .inr rfl
      · exact .inl rfl
  | multi =>
      refine .changed rfl (KvStore.Plain.of_within (.of_eq ?_) h)
      exact store.multi_contents
  | exec =>
      refine .changed rfl (KvStore.Plain.of_within (.of_eq ?_) h)
      rw [KvStore.exec, hqueue]
  | discard =>
      refine .changed rfl (KvStore.Plain.of_within (.of_eq ?_) h)
      exact store.discard_contents
  | pfAdd key values => exact .changed rfl (hwrite (.pfadd key values) rfl)
  | pfMerge destination sources => exact .changed rfl (hwrite (.pfmerge destination sources) rfl)
  | lua script =>
      refine .changed rfl ?_
      exact List.foldlRecOn _ _ h fun s hs call _ => call.1.run_plain env.rt hs (env.now call.2)
  | lPush key values => exact .changed rfl (hwrite (.lpush key values) rfl)
  | rPush key values => exact .changed rfl (hwrite (.rpush key values) rfl)
  | lPop key => exact .changed rfl (hwrite (.lpop key) rfl)
  | rPop key => exact .changed rfl (hwrite (.rpop key) rfl)
  | pipeline file =>
      rw [run]
      cases hread : (files.read file).bind env.pipeline with
      | none => exact .returned (by rw [saves, hread]; rfl)
      | some commands =>
          refine .changed (by rw [saves, hread]; rfl) ?_
          exact List.foldlRecOn _ _ h fun s hs cmd _ => cmd.1.run_plain env.rt hs (env.now cmd.2)

theorem KvStore.new_plain : KvStore.new.Plain := by
  intro k entry hentry
  simp [contents, new, withConfig] at hentry

/-- A run whose load fails leaves the files, or saves what the command makes of a new store. -/
theorem cliMain_rejected (env : CliEnv B) (cli : Cli) {e : String} (hfile : files.read cli.filePath ≠ none)
    (hrejected : KvStore.loadFromFile lib cli.filePath files = .error e) :
    (cli.command.saves env files = false ∧ cliMain lib env cli files = files) ∨
      (cli.command.saves env files = true ∧ ∃ ran maxVersions,
        cli.command.run lib env cli.filePath KvStore.new files = some ran ∧ ran.store.Plain ∧
        cliMain lib env cli files
          = (ran.store.saveWithVersion lib env.disk cli.filePath maxVersions files).2) := by
  obtain ⟨b, hread⟩ := Option.ne_none_iff_exists'.mp hfile
  have hends : cli.command.Ends lib env cli.filePath KvStore.new files _ :=
    Commands.run_ends KvStore.new_plain rfl cli.command
  unfold cliMain
  simp only [hread, hrejected]
  cases hrun : cli.command.run lib env cli.filePath KvStore.new files with
  | none =>
      rw [hrun] at hends
      cases hends with
      | returned hsaves => exact .inl ⟨hsaves, rfl⟩
  | some ran =>
      rw [hrun] at hends
      cases hends with
      | read hsaves s => exact .inl ⟨hsaves, rfl⟩
      | saved hsaves versions => exact .inr ⟨hsaves, _, versions, rfl, KvStore.new_plain, rfl⟩
      | changed hsaves hs => exact .inr ⟨hsaves, _, 3, rfl, hs, rfl⟩

/-- For every command and every file that is there and cannot be loaded: the file is as it was after the
run if the command does not come to a save, or a step of the save fails. Else the run of a command that
is meant to save, on a disk that takes the last flush, too, leaves in its place the store that the command
makes of an empty one. -/
theorem unreadable_file_kept (hlib : lib.Documented) (env : CliEnv B) (cli : Cli) {files : Files B}
    {e : String} (hfile : files.read cli.filePath ≠ none)
    (hrejected : KvStore.loadFromFile lib cli.filePath files = .error e) :
    (cli.command.saves env files = false ∨ ¬ env.disk.Works →
      (cliMain lib env cli files).read cli.filePath = files.read cli.filePath) ∧
    (cli.command.saves env files = true → (∀ keys, cli.command ≠ .mGet keys) → env.disk.Works →
      env.disk.flush = none → ∃ ran, cli.command.run lib env cli.filePath KvStore.new files = some ran ∧
        LoadsAs lib cli.filePath (cliMain lib env cli files) ran.store) := by
  rcases cliMain_rejected env cli hfile hrejected with
    ⟨hreads, hmain⟩ | ⟨hsaves, ran, maxVersions, hran, hplain, hmain⟩
  · rw [hmain]
    exact ⟨fun _ => rfl, fun hsaves => absurd (hreads.symm.trans hsaves) Bool.false_ne_true⟩
  · have hok : (ran.store.saveWithVersion lib env.disk cli.filePath maxVersions files).1 = .ok () ↔ _ :=
      ran.store.saveWithVersion_ok_iff env.disk maxVersions hfile
    rw [hmain]
    rcases hsave : ran.store.saveWithVersion lib env.disk cli.filePath maxVersions files with ⟨e' | u, files'⟩
    · rw [hsave] at hok
      exact ⟨fun _ => KvStore.saveWithVersion_error hsave, fun _ _ hworks => by cases hok.mpr hworks⟩
    · rw [hsave] at hok
      have hworks := hok.mp rfl
      refine ⟨fun h => ?_, fun _ _ _ hflush => ⟨ran, hran, ?_⟩⟩
      · rcases h with hreads | hfails
        · exact absurd (hreads.symm.trans hsaves) Bool.false_ne_true
        · exact absurd hworks hfails
      · have hrun : (Save.withVersion maxVersions).run ran.store lib env.disk cli.filePath files
            = (.ok (), files') := hsave
        exact (save_load_lossless_iff hlib (.inl (hplain.floatless _)) hrun).mpr
          ⟨hflush, hplain.savable _⟩

/-- What a run of the command line finds outside where nothing fails. -/
def quietEnv : CliEnv Contents where
  rt := { hashValue := fun _ => 0, f64ToString := fun _ => "", f64Parse := fun _ => none
          valueToJson := fun _ => .error "", valueFromJson := fun _ => none }
  pipeline _ := none

/-- A directory with a data file that lost its end. -/
def tornFiles : Files Contents := fun dir name =>
  if dir = "." ∧ name = "store.json" then some .torn else none

theorem unreadable_file_kept_get :
    (cliMain .symbolic quietEnv { command := .get "k" } tornFiles).read storeJson = some .torn :=
  (unreadable_file_kept FileLib.symbolic_documented quietEnv { command := .get "k" }
    (show tornFiles.read storeJson ≠ none by decide)
    (show KvStore.loadFromFile .symbolic storeJson tornFiles = .error "EOF while parsing an object"
      from rfl)).1 (.inl rfl)

/-- `set k v`, where the data file lost its end: the file is replaced by a store that holds this key alone. -/
theorem torn_file_replaced :
    KvStore.loadFromFile .symbolic storeJson tornFiles = .error "EOF while parsing an object" ∧
      ¬ (cliMain .symbolic quietEnv { command := .set "k" "v" } tornFiles).read storeJson
        = tornFiles.read storeJson := by
  refine ⟨rfl, fun hsame => ?_⟩
  have hloads : (KvStore.loadFromFile .symbolic storeJson
      (cliMain .symbolic quietEnv { command := .set "k" "v" } tornFiles)).toOption ≠ none := by
    decide +kernel
  have htorn : (KvStore.loadFromFile .symbolic storeJson tornFiles).toOption = none := by decide +kernel
  unfold KvStore.loadFromFile at hloads htorn
  rw [hsame] at hloads
  exact hloads htorn

end Daikon
