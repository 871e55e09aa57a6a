/-
# Daikon.Cli.Main -- the command line (`main.rs`, `cli.rs`)

A run loads the store of its file, carries out one command and, unless the command only reads, saves. A
load that fails is printed, and the run goes on with an empty store. What a run prints is left out: it is
the file that the next run sees.

Every command keeps its arm of `main`, with the flag that says whether the run ends in a save: it is set at
first, and the arms of the reading commands clear it, with `mget` as the one that does not. A command that
ends with an error ends the run before the save. Commands that read a file of their own (a script, a
pipeline) get its lines from the environment of the run, together with the clock and the outcome of each
call to the disk.

The store calls are those of `Daikon.Store`; the command line makes no entry in the log, since the log
belongs to the server.
-/
import Daikon.Api.Batch
import Daikon.Store.File

namespace Daikon

/-! ## Commands -/

/-- The commands of a pipeline file. -/
inductive PipeCmd where
  | get (key : String)
  | set (key value : String)
  | delete (key : String)
  | incr (key : String)
  | decr (key : String)
  | incrBy (key : String) (amount : Int64)
  | append (key value : String)
  | getSet (key value : String)
  | exists_ (key : String)
  | lPush (key : String) (values : List String)
  | rPush (key : String) (values : List String)
  | lPop (key : String)
  | rPop (key : String)
  | lRange (key : String) (start stop : Option Int64)
  | lLen (key : String)

/-- The commands of the command line, with their arguments as `clap` hands them over. -/
inductive Commands where
  | set (key value : String)
  | setTTL (key value : String) (ttl : Nat)
  | get (key : String)
  | delete (key : String)
  | list
  | save (versions : Nat := 2)
  | load
  | incr (key : String)
  | decr (key : String)
  | incrBy (key : String) (amount : Int64)
  | append (key value : String)
  | getSet (key value : String)
  | mGet (keys : List String)
  | mSet (pairs : List String)
  | exists_ (keys : List String)
  | keys (pattern : String)
  | stats
  | cleanup
  | multi
  | exec
  | discard
  | pfAdd (key : String) (values : List String)
  | pfCount (key : String)
  | pfMerge (destination : String) (sources : List String)
  | lua (script : LuaScript)
  | benchmark
  | lPush (key : String) (values : List String)
  | rPush (key : String) (values : List String)
  | lPop (key : String)
  | rPop (key : String)
  | lRange (key : String) (start : Int64 := 0) (stop : Int64 := -1)
  | lLen (key : String)
  | pipeline (file : Path)

/-- The command line: the data file, if it is named, and a command. -/
structure Cli where
  file : Option Path := none
  command : Commands

/-- The data file; `store.json` in the working directory if none is named. -/
def Cli.filePath (cli : Cli) : Path := cli.file.getD ⟨"", some "store.json"⟩

/-- What a run finds outside. -/
structure CliEnv (B : Type) where
  rt : Runtime
  /-- The clock at the store calls of the run, one after the other. -/
  now : Nat → Nat := fun _ => 0
  disk : Disk := {}
  /-- `read_to_string` and `serde_json::from_str` of a pipeline file; nothing where one of them fails. -/
  pipeline : B → Option (List PipeCmd)

/-- The store after a command of a pipeline file. -/
def PipeCmd.run (now : Nat) (store : KvStore) : PipeCmd → KvStore
  | .get _ | .exists_ _ | .lRange _ _ _ | .lLen _ => store
  | .set key value => (store.set now key (.str value)).2
  | .delete key => (store.delete now key).2
  | .incr key => (store.incr key).2
  | .decr key => (store.decr key).2
  | .incrBy key amount => (store.incrby key amount).2
  | .append key value => (store.append now key value).2
  | .getSet key value => (store.getset now key (.str value)).2
  | .lPush key values => (store.lpush key values).2
  | .rPush key values => (store.rpush key values).2
  | .lPop key => (store.lpop key).2
  | .rPop key => (store.rpop key).2

/-- `chunks(2)` of a list of even length. -/
def chunkPairs : List String → List (String × String)
  | key :: value :: pairs => (key, value) :: chunkPairs pairs
  | _ => []

variable {B : Type}

/-! ## A run -/

/-- What the `match` of `main` leaves. -/
structure Ran (B : Type) where
  store : KvStore
  files : Files B
  shouldSave : Bool := true

/-- The `match` of `main`; nothing where it returns. The benchmarks run in a process of their own. -/
def Commands.run (lib : FileLib B) (env : CliEnv B) (filePath : Path) (store : KvStore) (files : Files B) :
    Commands → Option (Ran B)
  | .set key value => some { store := (store.set (env.now 0) key (.str value)).2, files }
  | .setTTL key value ttl => some { store := (store.setWithTtl (env.now 0) key (.str value) ttl).2, files }
  | .get _ | .list | .exists_ _ | .keys _ | .stats | .pfCount _ | .benchmark | .lRange _ _ _ | .lLen _ =>
      some { store, files, shouldSave := false }
  | .delete key => some { store := (store.delete (env.now 0) key).2, files }
  | .save versions =>
      some { store, files := (store.saveWithVersion lib env.disk filePath versions files).2
             shouldSave := false }
  | .load =>
      match KvStore.loadFromFile lib filePath files with
      | .ok loadedStore => some { store := loadedStore, files, shouldSave := false }
      | .error _ => some { store, files, shouldSave := false }
  | .incr key => some { store := (store.incr key).2, files }
  | .decr key => some { store := (store.decr key).2, files }
  | .incrBy key amount => some { store := (store.incrby key amount).2, files }
  | .append key value => some { store := (store.append (env.now 0) key value).2, files }
  | .getSet key value => some { store := (store.getset (env.now 0) key (.str value)).2, files }
  -- it only reads, but does not say so
  | .mGet _ => some { store, files }
  | .mSet pairs =>
      if pairs.length % 2 ≠ 0 then some { store, files }
      else some { store := (store.mset (env.now 0) (chunkPairs pairs)).2, files }
  | .cleanup => some { store := (store.cleanupExpired (env.now 0)).2, files }
  | .multi => some { store := store.multi.2, files }
  | .exec => some { store := store.exec.2, files }
  | .discard => some { store := store.discard.2, files }
  | .pfAdd key values => some { store := (store.pfadd env.rt key values).2, files }
  | .pfMerge destination sources => some { store := (store.pfmerge destination sources).2, files }
  | .lua script =>
      some { store := script.calls.zipIdx.foldl (fun s call => call.1.run (env.now call.2) s) store, files }
  | .lPush key values => some { store := (store.lpush key values).2, files }
  | .rPush key values => some { store := (store.rpush key values).2, files }
  | .lPop key => some { store := (store.lpop key).2, files }
  | .rPop key => some { store := (store.rpop key).2, files }
  | .pipeline file =>
      match (files.read file).bind env.pipeline with
      | none => none
      | some commands =>
          some { store := commands.zipIdx.foldl (fun s cmd => cmd.1.run (env.now cmd.2) s) store, files }

/-- `main`: the files after a run. -/
def cliMain (lib : FileLib B) (env : CliEnv B) (cli : Cli) (files : Files B) : Files B :=
  let filePath := cli.filePath
  let store := match files.read filePath with
    | none => KvStore.new
    | some _ =>
        match KvStore.loadFromFile lib filePath files with
        | .ok loadedStore => loadedStore
        | .error _ => KvStore.new
  match cli.command.run lib env filePath store files with
  | none => files
  | some ran =>
      if ran.shouldSave then (ran.store.saveWithVersion lib env.disk filePath 3 ran.files).2 else ran.files

end Daikon
