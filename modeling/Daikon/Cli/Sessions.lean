/-
# Daikon.Cli.Sessions -- runs of the command line, one process after another on one file

Between two runs there is nothing but the file. Still a run finds what a store would hold that stayed in
memory all the time and carried out the commands of the runs before (`runs_are_one_session`): the file can
always be loaded, a run whose save fails has not happened, and all that a process takes with it when it ends
is the recency of keys and an open transaction, so `multi` and `exec` are nothing here.

The theorem is a simulation. `Mirrors` relates the store of a process, which was loaded from the file, to
the store that stayed in memory: the same entries, bytes and limits, with recency and the queue left free.
Each command keeps it, as long as the memory store has the room that spares it an eviction (`RoomFor`):
which key an eviction takes goes by recency, and recency is what a file does not hold.

`StartsWith` is the other half, about the file: it is absent and the store is empty, or it loads as that
store. A save that reports success re-establishes it, and a save that fails leaves the file of the run
before, so that such a run has not happened.
-/
import Daikon.Cli.Unreadable
import Daikon.Store.Local
import Daikon.Store.Reached

namespace Daikon

open Lib.Run (Always Guarded)

/-! ## Stores that differ in what is not saved -/

namespace KvStore

/-- The same entries, limits and counted bytes. -/
structure Mirrors (s t : KvStore) : Prop where
  store : s.store = t.store
  memory : s.stats.memoryBytes = t.stats.memoryBytes
  config : s.config = t.config
  inTransaction : s.inTransaction = t.inTransaction

/-- No entry has to be evicted for the call. -/
def RoomFor (rt : Runtime) (s : KvStore) (call : Nat × Write) : Prop :=
  call.2.Keyed → s.Fits (s.growth (call.2.cells rt s.config s.inTransaction call.1))

theorem removeAll_memoryBytes (now : Nat) (keys : List String) :
    ∀ s : KvStore, (keys.foldl (removeExpired now) s).stats.memoryBytes = s.stats.memoryBytes := by
  induction keys with
  | nil => exact fun s => rfl
  | cons key keys ih =>
      intro s
      rw [List.foldl_cons, ih, removeExpired, emitKeyspaceEvent_stats]

namespace Mirrors

variable {s t : KvStore} (h : Mirrors s t)

include h

theorem contents : s.contents = t.contents := by
  unfold KvStore.contents
  rw [h.store]

theorem sameOn : SameOn Set.univ s t :=
  ⟨fun k _ => by rw [h.store], by rw [h.config], by rw [h.config]⟩

theorem moves {s' t' : KvStore} {cells : List (String × CellOp)} (hs : Moves s s' cells)
    (ht : Moves t t' cells) : Mirrors s' t' where
  store := by
    have hcontents : s'.contents = t'.contents := by rw [hs.contents, ht.contents, h.contents]
    exact Std.ExtTreeMap.ext_getElem? fun {k} => congrFun hcontents k
  memory := by
    rw [hs.memory, ht.memory, h.memory, growth, growth, h.contents]
  config := by rw [hs.config, ht.config, h.config]
  inTransaction := by rw [hs.inTransaction, ht.inTransaction, h.inTransaction]

theorem rewriteEntry (key : String) (entry : ValueWithTTL) :
    Mirrors (s.rewriteEntry key entry) (t.rewriteEntry key entry) :=
  ⟨congrArg (·.insert key entry) h.store, h.memory, h.config, h.inTransaction⟩

theorem insertEntry (key : String) (entry : ValueWithTTL) (size : Nat) :
    Mirrors (s.insertEntry key entry size) (t.insertEntry key entry size) :=
  ⟨congrArg (·.insert key entry) h.store, congrArg (· + size) h.memory, h.config, h.inTransaction⟩

theorem pfmerge (destination : String) (sources : List String) :
    Mirrors (s.pfmerge destination sources).2 (t.pfmerge destination sources).2 := by
  have hmerge : mergeSources s destination sources = mergeSources t destination sources :=
    funext (mergeSources_local h.sameOn destination fun source _ => Set.mem_univ source)
  unfold KvStore.pfmerge
  rw [h.sameOn.validateKey, h.store, hmerge]
  cases t.validateKey destination with
  | error e => exact h
  | ok _ =>
      simp only
      split
      · exact h
      · split
        · exact h
        · split
          · exact h.rewriteEntry destination _
          · exact h.insertEntry destination _ _

theorem write (rt : Runtime) {call : Nat × Write} (hroom : t.RoomFor rt call) :
    Mirrors (s.write rt call.1 call.2).2 (t.write rt call.1 call.2).2 := by
  obtain ⟨now, w⟩ := call
  have hkeyed : w.Keyed → Mirrors (s.write rt now w).2 (t.write rt now w).2 := by
    intro hkeyed
    have hfits := hroom hkeyed
    have hfits' : s.Fits (s.growth (w.cells rt s.config s.inTransaction now)) := by
      rw [h.config, h.inTransaction]
      unfold Fits growth at hfits ⊢
      rw [h.config, h.memory, h.contents]
      exact hfits
    have hs := write_refines rt s now hkeyed hfits'
    rw [h.config, h.inTransaction] at hs
    exact h.moves hs (write_refines rt t now hkeyed hfits)
  cases w with
  | pfadd key values =>
      have hs := pfadd_moves rt s key values
      rw [h.config] at hs
      exact h.moves hs (pfadd_moves rt t key values)
  | pfmerge destination sources => exact h.pfmerge destination sources
  | _ => exact hkeyed trivial

theorem writes (rt : Runtime) (calls : List (Nat × Write))
    (hroom : Guarded (fun s c => (s.write rt c.1 c.2).2) (RoomFor rt) t calls) :
    Mirrors (s.writes rt calls) (t.writes rt calls) := by
  induction calls generalizing s t with
  | nil => exact h
  | cons call calls ih => exact ih (h.write rt hroom.1) hroom.2

theorem cleanupExpired (now : Nat) : Mirrors (s.cleanupExpired now).2 (t.cleanupExpired now).2 where
  store := by
    refine Std.ExtTreeMap.ext_getElem? fun {k} => ?_
    have hs := congrFun (s.cleanupExpired_contents now) k
    have ht := congrFun (t.cleanupExpired_contents now) k
    rw [dueKeys, h.store, h.contents] at hs
    exact hs.trans ht.symm
  memory := by
    have hkept : ∀ u : KvStore, (u.cleanupExpired now).2.stats.memoryBytes = u.stats.memoryBytes := fun u =>
      removeAll_memoryBytes now (u.dueKeys now) u
    rw [hkept, hkept, h.memory]
  config := by rw [cleanupExpired_config, cleanupExpired_config, h.config]
  inTransaction := by
    have hkept : ∀ u : KvStore, (u.cleanupExpired now).2.inTransaction = u.inTransaction := fun u =>
      removeAll_inTransaction now (u.dueKeys now) u
    rw [hkept, hkept, h.inTransaction]

end Mirrors

end KvStore

/-! ## Commands -/

/-- The call of a command of a pipeline file; nothing for one that only reads. -/
def PipeCmd.write : PipeCmd → Option Write
  | .get _ | .exists_ _ | .lRange _ _ _ | .lLen _ => none
  | .set key value => some (.set key (.str value))
  | .delete key => some (.delete key)
  | .incr key => some (.incr key)
  | .decr key => some (.decr key)
  | .incrBy key amount => some (.incrby key amount)
  | .append key value => some (.append key value)
  | .getSet key value => some (.getset key (.str value))
  | .lPush key values => some (.lpush key values)
  | .rPush key values => some (.rpush key values)
  | .lPop key => some (.lpop key)
  | .rPop key => some (.rpop key)

variable {B : Type}

/-- The calls that a command makes on the store, each with its clock. -/
def Commands.calls (env : CliEnv B) (files : Files B) : Commands → List (Nat × Write)
  | .set key value => [(env.now 0, .set key (.str value))]
  | .setTTL key value ttl => [(env.now 0, .setWithTtl key (.str value) ttl)]
  | .delete key => [(env.now 0, .delete key)]
  | .incr key => [(env.now 0, .incr key)]
  | .decr key => [(env.now 0, .decr key)]
  | .incrBy key amount => [(env.now 0, .incrby key amount)]
  | .append key value => [(env.now 0, .append key value)]
  | .getSet key value => [(env.now 0, .getset key (.str value))]
  | .mSet pairs => if pairs.length % 2 ≠ 0 then [] else [(env.now 0, .mset (chunkPairs pairs))]
  | .pfAdd key values => [(env.now 0, .pfadd key values)]
  | .pfMerge destination sources => [(env.now 0, .pfmerge destination sources)]
  | .lua script => script.calls.zipIdx.map fun call => (env.now call.2, call.1.write)
  | .lPush key values => [(env.now 0, .lpush key values)]
  | .rPush key values => [(env.now 0, .rpush key values)]
  | .lPop key => [(env.now 0, .lpop key)]
  | .rPop key => [(env.now 0, .rpop key)]
  | .pipeline file =>
      (((files.read file).bind env.pipeline).getD []).zipIdx.filterMap fun cmd =>
        cmd.1.write.map (env.now cmd.2, ·)
  | _ => []

/-- The command, carried out on a store that stays in memory. -/
def Commands.session (env : CliEnv B) (files : Files B) (mem : KvStore) (command : Commands) : KvStore :=
  match command with
  | .cleanup => (mem.cleanupExpired (env.now 0)).2
  | command => mem.writes env.rt (command.calls env files)

/-! ### A run and its command in memory -/

variable {lib : FileLib B} {env : CliEnv B} {path : Path} {files : Files B}

theorem PipeCmd.run_write (rt : Runtime) (now : Nat) (store : KvStore) (cmd : PipeCmd) :
    cmd.run now store = (cmd.write.elim store fun w => (store.write rt now w).2) := by
  cases cmd <;> rfl

theorem pipeline_writes (rt : Runtime) (now : Nat → Nat) (cmds : List (PipeCmd × Nat)) : ∀ store : KvStore,
    cmds.foldl (fun s cmd => cmd.1.run (now cmd.2) s) store
      = store.writes rt (cmds.filterMap fun cmd => cmd.1.write.map (now cmd.2, ·)) := by
  induction cmds with
  | nil => exact fun _ => rfl
  | cons cmd cmds ih =>
      intro store
      rw [List.foldl_cons, ih, PipeCmd.run_write rt]
      cases hwrite : cmd.1.write with
      | none =>
          rw [List.filterMap_cons_none (by rw [hwrite]; rfl)]
          rfl
      | some w =>
          rw [List.filterMap_cons_some (by rw [hwrite]; rfl)]
          rfl

theorem script_writes (rt : Runtime) (now : Nat → Nat) (calls : List (LuaCall × Nat)) (store : KvStore) :
    calls.foldl (fun s call => call.1.run (now call.2) s) store
      = store.writes rt (calls.map fun call => (now call.2, call.1.write)) := by
  rw [KvStore.writes, List.foldl_map]
  exact congrArg (calls.foldl · store) (funext fun s => funext fun call => Server.luaCall_run rt _ s call.1)

/-- Where no transaction is open, the store that a command leaves for the save has the entries and the
counted bytes of the command in memory. -/
theorem Commands.run_session {store s : KvStore} (hqueue : store.transactionQueue = none) {command : Commands}
    (h : command.run lib env path store files = some ⟨s, files, true⟩) :
    s.store = (command.session env files store).store ∧
      s.stats.memoryBytes = (command.session env files store).stats.memoryBytes := by
  cases command with
  | multi =>
      obtain rfl := congrArg Ran.store (Option.some.inj h)
      unfold KvStore.multi
      split
      · exact ⟨rfl, rfl⟩
      · exact ⟨rfl, rfl⟩
  | exec =>
      obtain rfl := congrArg Ran.store (Option.some.inj h)
      simp only [KvStore.exec, hqueue]
      exact ⟨rfl, rfl⟩
  | discard =>
      obtain rfl := congrArg Ran.store (Option.some.inj h)
      simp only [KvStore.discard, hqueue]
      exact ⟨rfl, rfl⟩
  | mSet pairs =>
      rw [run] at h
      rw [show (mSet pairs).session env files store = store.writes env.rt
        (if pairs.length % 2 ≠ 0 then [] else [(env.now 0, .mset (chunkPairs pairs))]) from rfl]
      split at h
      · next hodd =>
          obtain rfl := congrArg Ran.store (Option.some.inj h)
          rw [if_pos hodd]
          exact ⟨rfl, rfl⟩
      · next heven =>
          obtain rfl := congrArg Ran.store (Option.some.inj h)
          rw [if_neg heven]
          exact ⟨rfl, rfl⟩
  | lua script =>
      obtain rfl := congrArg Ran.store (Option.some.inj h)
      simp only [script_writes env.rt]
      exact ⟨rfl, rfl⟩
  | pipeline file =>
      rw [run] at h
      split at h
      · cases h
      · next commands hcommands =>
          obtain rfl := congrArg Ran.store (Option.some.inj h)
          simp only [session, calls, hcommands, Option.getD_some, pipeline_writes env.rt, and_self]
  | load =>
      rw [run] at h
      split at h <;> cases h
  | get _ | list | save _ | exists_ _ | keys _ | stats | pfCount _ | benchmark | lRange _ _ _ | lLen _ =>
      cases congrArg Ran.shouldSave (Option.some.inj h)
  | _ =>
      obtain rfl := congrArg Ran.store (Option.some.inj h)
      exact ⟨rfl, rfl⟩

/-- A command that saves in its own turn is `save`. -/
theorem Commands.eq_save {store : KvStore} {command : Commands} {ran : Ran B}
    (hsaves : command.saves env files = true) (h : command.run lib env path store files = some ran)
    (hdone : ran.shouldSave = false) : ∃ versions, command = .save versions := by
  cases command with
  | save versions => exact ⟨versions, rfl⟩
  | get _ | list | load | exists_ _ | keys _ | stats | pfCount _ | benchmark | lRange _ _ _ | lLen _ =>
      cases hsaves
  | mSet pairs =>
      rw [run] at h
      split at h <;> cases h <;> cases hdone
  | pipeline file =>
      rw [run] at h
      split at h <;> cases h
      cases hdone
  | _ =>
      cases h
      cases hdone

/-! ## The file between two runs -/

/-- Every operation of a save to the path whose error is looked at succeeds; the backup is only made of a file
that is there. -/
def Disk.Saves (disk : Disk) (path : Path) (files : Files B) : Prop :=
  path.fileName ≠ none ∧ (files.read path ≠ none → disk.copy = none ∧ disk.readDir = none) ∧
    disk.create = none ∧ disk.write = none ∧ disk.rename = none

instance (disk : Disk) (path : Path) (files : Files B) : Decidable (disk.Saves path files) :=
  inferInstanceAs (Decidable (_ ∧ (_ → _) ∧ _))

theorem KvStore.saveWithVersion_ok_iff_saves (s : KvStore) (disk : Disk) (maxVersions : Nat) :
    (s.saveWithVersion lib disk path maxVersions files).1 = .ok () ↔ disk.Saves path files := by
  by_cases hfile : files.read path = none
  · cases hname : path.fileName with
    | none => simp [saveWithVersion, Disk.Saves, hname]
    | some name =>
        -- there is nothing to make a backup of
        have hbackup : backup lib disk path.dir name maxVersions files = (.ok (), files) := by
          rw [Files.read_eq _ hname] at hfile
          rw [backup, hfile]
        have hsaves : disk.Saves path files ↔ disk.create = none ∧ disk.write = none ∧ disk.rename = none := by
          simp [Disk.Saves, hname, hfile]
        rw [hsaves, saveWithVersion, hname]
        simp only [hbackup]
        generalize (fun e : String => s!"Failed to create temp file {lib.debug (tmpPath path).text}: {e}")
          = failure
        rcases hwrite : writeFile lib disk failure (compressionForPath path)
          (Serde.encodeStore lib.toSerializer s) (tmpPath path) files with ⟨e | u, written⟩
        · refine iff_of_false (by simp) fun h => ?_
          have hok : (writeFile lib disk failure (compressionForPath path)
              (Serde.encodeStore lib.toSerializer s) (tmpPath path) files).1 = .ok () :=
            writeFile_ok (tmpPath_fileName_eq hname) h.1 h.2.1
          rw [hwrite] at hok
          cases hok
        · obtain ⟨hcreate, hwritten⟩ := writeFile_steps hwrite
          cases hrename : disk.rename with
          | none => exact iff_of_true rfl ⟨hcreate, hwritten, rfl⟩
          | some e => exact iff_of_false (by simp) (by simp)
  · rw [s.saveWithVersion_ok_iff disk maxVersions hfile]
    have hname : path.fileName ≠ none := fun hnone => hfile (by rw [Files.read, hnone]; rfl)
    constructor
    · intro h
      exact ⟨hname, fun _ => ⟨h.copy, h.readDir⟩, h.create, h.write, h.rename⟩
    · rintro ⟨-, hbackup, hcreate, hwrite, hrename⟩
      exact ⟨(hbackup hfile).1, (hbackup hfile).2, hcreate, hwrite, hrename⟩

/-- What the next run starts with. -/
def StartsWith (lib : FileLib B) (path : Path) (files : Files B) (s : KvStore) : Prop :=
  files.read path = none ∧ s = .new ∨ files.read path ≠ none ∧ KvStore.loadFromFile lib path files = .ok s

theorem StartsWith.congr {files' : Files B} {s : KvStore} (h : StartsWith lib path files s)
    (hread : files'.read path = files.read path) : StartsWith lib path files' s := by
  unfold StartsWith KvStore.loadFromFile at h ⊢
  rw [hread]
  exact h

/-- A run that starts with a store without an open transaction leaves the files, or saves the store of its
command. -/
theorem cliMain_saves (env : CliEnv B) (cli : Cli) {s : KvStore} (hstart : StartsWith lib cli.filePath files s)
    (hplain : s.Plain) (hqueue : s.transactionQueue = none) :
    (cli.command.saves env files = false ∧ cliMain lib env cli files = files) ∨
      (cli.command.saves env files = true ∧ ∃ (left : KvStore) (maxVersions : Nat), left.Plain ∧
        left.store = (cli.command.session env files s).store ∧
        left.stats.memoryBytes = (cli.command.session env files s).stats.memoryBytes ∧
        cliMain lib env cli files
          = (left.saveWithVersion lib env.disk cli.filePath maxVersions files).2) := by
  have hmain : cliMain lib env cli files = (cli.command.run lib env cli.filePath s files).elim files fun ran =>
      if ran.shouldSave then (ran.store.saveWithVersion lib env.disk cli.filePath 3 ran.files).2
      else ran.files := by
    unfold cliMain
    rcases hstart with ⟨hread, rfl⟩ | ⟨hread, hload⟩
    · simp only [hread]
      cases cli.command.run lib env cli.filePath KvStore.new files <;> rfl
    · obtain ⟨b, hb⟩ := Option.ne_none_iff_exists'.mp hread
      simp only [hb, hload]
      cases cli.command.run lib env cli.filePath s files <;> rfl
  have hends : cli.command.Ends lib env cli.filePath s files _ := Commands.run_ends hplain hqueue cli.command
  rw [hmain]
  cases hrun : cli.command.run lib env cli.filePath s files with
  | none =>
      rw [hrun] at hends
      cases hends with
      | returned hsaves => exact .inl ⟨hsaves, rfl⟩
  | some ran =>
      rw [hrun] at hends
      cases hends with
      | read hsaves s' => exact .inl ⟨hsaves, rfl⟩
      | saved hsaves versions =>
          obtain ⟨versions', hsave⟩ := Commands.eq_save hsaves hrun rfl
          refine .inr ⟨hsaves, s, versions, hplain, ?_, ?_, rfl⟩
          · rw [hsave]
            rfl
          · rw [hsave]
            rfl
      | changed hsaves hs =>
          obtain ⟨hstore, hmemory⟩ := Commands.run_session hqueue hrun
          exact .inr ⟨hsaves, _, 3, hs, hstore, hmemory, rfl⟩

/-! ## Runs, one after another -/

/-- The file of the runs, and the store that stays in memory. -/
structure Session (B : Type) where
  files : Files B
  mem : KvStore

section

variable (lib : FileLib B) (file : Option Path)

/-- The file that the runs work on. -/
def dataFile : Path := file.getD ⟨"", some "store.json"⟩

/-- The run comes to a save, and the save succeeds. -/
def Takes (st : Session B) (run : CliEnv B × Commands) : Prop :=
  run.2.saves run.1 st.files = true ∧ run.1.disk.Saves (dataFile file) st.files

instance (st : Session B) (run : CliEnv B × Commands) : Decidable (Takes file st run) :=
  inferInstanceAs (Decidable (_ ∧ _))

/-- A run on the file; in memory its command is carried out if the run has taken. -/
def oneRun (st : Session B) (run : CliEnv B × Commands) : Session B :=
  { files := cliMain lib run.1 { file, command := run.2 } st.files
    mem := if Takes file st run then run.2.session run.1 st.files st.mem else st.mem }

/-- The last flush of a save that succeeds loses nothing, and its command evicts nothing. -/
def Unhurt (st : Session B) (run : CliEnv B × Commands) : Prop :=
  Takes file st run → run.1.disk.flush = none ∧
    Guarded (fun s call => (s.write run.1.rt call.1 call.2).2) (KvStore.RoomFor run.1.rt) st.mem
      (run.2.calls run.1 st.files)

/-- The invariant: the next run starts with what is in memory, and with nothing else. -/
def Resumes (st : Session B) : Prop :=
  ∃ s, StartsWith lib (dataFile file) st.files s ∧ s.Mirrors st.mem ∧ s.config = {} ∧
    s.transactionQueue = none ∧ s.Plain

end

variable {file : Option Path}

theorem Commands.session_config (env : CliEnv B) (files : Files B) (mem : KvStore) (command : Commands) :
    (command.session env files mem).config = mem.config := by
  unfold session
  split
  · exact mem.cleanupExpired_config (env.now 0)
  · exact KvStore.writes_config env.rt _ mem

theorem Commands.session_inTransaction (env : CliEnv B) (files : Files B) (mem : KvStore) (command : Commands) :
    (command.session env files mem).inTransaction = mem.inTransaction := by
  unfold session
  split
  · exact KvStore.removeAll_inTransaction (env.now 0) (mem.dueKeys (env.now 0)) mem
  · generalize command.calls env files = calls
    induction calls generalizing mem with
    | nil => rfl
    | cons call calls ih => rw [KvStore.writes_cons, ih, KvStore.write_inTransaction]

theorem KvStore.Mirrors.session {s mem : KvStore} (h : s.Mirrors mem) (command : Commands)
    (hroom : Guarded (fun s call => (s.write env.rt call.1 call.2).2) (RoomFor env.rt) mem
      (command.calls env files)) :
    (command.session env files s).Mirrors (command.session env files mem) := by
  unfold Commands.session
  split
  · exact h.cleanupExpired (env.now 0)
  · exact h.writes env.rt _ hroom

theorem Resumes.step (hlib : lib.Documented) {st : Session B} (h : Resumes lib file st)
    {run : CliEnv B × Commands} (hunhurt : Unhurt file st run) : Resumes lib file (oneRun lib file st run) := by
  obtain ⟨env, command⟩ := run
  obtain ⟨s, hstart, hmirrors, hconfig, hqueue, hplain⟩ := h
  have hpath : Cli.filePath { file, command } = dataFile file := rfl
  rcases cliMain_saves env { file, command } hstart hplain hqueue with
    ⟨hreads, hmain⟩ | ⟨hsaves, left, maxVersions, hleft, hstore, hmemory, hmain⟩
  · have hnot : ¬ Takes file st (env, command) := fun htakes =>
      Bool.false_ne_true (hreads.symm.trans htakes.1)
    refine ⟨s, ?_, ?_, hconfig, hqueue, hplain⟩
    · rw [oneRun, hmain]
      exact hstart
    · rw [oneRun, if_neg hnot]
      exact hmirrors
  · have hok : (left.saveWithVersion lib env.disk (dataFile file) maxVersions st.files).1 = .ok () ↔
        env.disk.Saves (dataFile file) st.files := left.saveWithVersion_ok_iff_saves env.disk maxVersions
    rw [hpath] at hmain
    rcases hsave : left.saveWithVersion lib env.disk (dataFile file) maxVersions st.files with ⟨e | u, files'⟩
    · -- a save that fails leaves the file
      have hnot : ¬ Takes file st (env, command) := fun htakes => by
        have hgood := hok.mpr htakes.2
        rw [hsave] at hgood
        cases hgood
      refine ⟨s, ?_, ?_, hconfig, hqueue, hplain⟩
      · rw [oneRun, hmain, hsave]
        exact hstart.congr (KvStore.saveWithVersion_error hsave)
      · rw [oneRun, if_neg hnot]
        exact hmirrors
    · have htakes : Takes file st (env, command) := ⟨hsaves, hok.mp (by rw [hsave])⟩
      obtain ⟨hflush, hroom⟩ := hunhurt htakes
      have hsession := hmirrors.session command hroom
      have hrun : (Save.withVersion maxVersions).run left lib env.disk (dataFile file) st.files
          = (.ok (), files') := hsave
      obtain ⟨-, hload⟩ | ⟨hbad, -⟩ := load_after_save hlib (.inl (hleft.floatless _)) hrun
      · refine ⟨{ store := left.store, stats := left.stats, lruOrder := (lib.entries left.store).map Prod.fst },
          .inr ⟨?_, ?_⟩, ⟨?_, ?_, ?_, ?_⟩, rfl, rfl, hleft⟩
        · rw [oneRun, hmain, hsave, save_read hrun]
          exact Option.some_ne_none _
        · rw [oneRun, hmain, hsave]
          exact hload
        · rw [oneRun, if_pos htakes]
          exact hstore.trans hsession.store
        · rw [oneRun, if_pos htakes]
          exact hmemory.trans hsession.memory
        · rw [oneRun, if_pos htakes, ← hsession.config, Commands.session_config, hconfig]
        · rw [oneRun, if_pos htakes, ← hsession.inTransaction, Commands.session_inTransaction]
          exact (congrArg Option.isSome hqueue).symm
      · exact absurd ⟨hflush, hleft.savable _⟩ hbad

/-- In every run of the command line after another on a file that is not there at first, whatever the commands,
clocks and failures of the disk: the file can always be loaded, and the next run starts with the entries of
a store that stayed in memory and carried out the commands of the runs whose save succeeded. -/
theorem runs_are_one_session (hlib : lib.Documented) (file : Option Path) (files : Files B)
    (hnone : files.read (dataFile file) = none) (runs : List (CliEnv B × Commands))
    (hruns : Guarded (oneRun lib file) (Unhurt file) ⟨files, .new⟩ runs) :
    Always (oneRun lib file)
      (fun st => ∃ s, StartsWith lib (dataFile file) st.files s ∧ s.contents = st.mem.contents)
      ⟨files, .new⟩ runs := by
  have hstart : Resumes lib file ⟨files, .new⟩ :=
    ⟨.new, .inl ⟨hnone, rfl⟩, ⟨rfl, rfl, rfl, rfl⟩, rfl, rfl, KvStore.new_plain⟩
  refine (hruns.always (fun _ _ h hunhurt => h.step hlib hunhurt) hstart).mono fun st h => ?_
  obtain ⟨s, hstarts, hmirrors, -⟩ := h
  exact ⟨s, hstarts, hmirrors.contents⟩

/-- `set k v`, `set k w` on a disk that fails, and `lpush l x`: the first and the last run take. -/
theorem runs_are_one_session_failure :
    Always (oneRun .symbolic none)
      (fun st => ∃ s, StartsWith .symbolic storeJson st.files s ∧ s.contents = st.mem.contents)
      ⟨fun _ _ => none, .new⟩
      [(quietEnv, .set "k" "v"),
        ({ quietEnv with disk := { rename := some "Permission denied" } }, .set "k" "w"),
        (quietEnv, .lPush "l" ["x"])] := by
  refine runs_are_one_session FileLib.symbolic_documented none (fun _ _ => none) rfl _ ⟨?_, ?_, ?_, trivial⟩
  · exact fun _ => ⟨rfl, fun _ => by decide +kernel, trivial⟩
  · intro htakes
    exact absurd htakes.2.2.2.2.2 (by decide)
  · exact fun _ => ⟨rfl, fun _ => by decide +kernel, trivial⟩

end Daikon
