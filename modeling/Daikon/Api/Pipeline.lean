/-
# Daikon.Api.Pipeline -- a pipeline and its commands as single requests

Phase 1 decides which commands are carried out, phase 2 carries them out one after another:
`executeAll_eq` puts the two together. Sent one by one, the commands make the same store calls and
append the same operations, but for the text that SET logs (`pipeline_equals_singles`).

The theorem puts two servers side by side, from the same state and in the same environment: one serves the
batch, the other the commands one after another, the n-th in the environment of the n-th (`Io.nth`). Result
by result they agree on success, key by key on the entries after any number of commands, and entry by entry
on the log, up to the text of a SET.

What is excluded is excluded by name: an append that fails, a SET with a time to live of zero, an empty
batch and one over the limit. `Succeeded` and `Answered` are two readings of success, as a single DELETE of
a missing key is answered 404 where the pipeline reports it done, and `pipeline_differs` has the three
differences as runs.
-/
import Daikon.Api.Effects
import Daikon.Store.Text

namespace Daikon

/-- The error of a command's append, where it logs something and the append fails. -/
def Io.failure (io : Io) (n : Nat) (cmd : PipelineCommand) : Option String :=
  cmd.logged.bind fun _ => (io.disk n).map KvStoreError.toString

/-- Both phases for the store: the commands from the n-th on, each with the error of its append. -/
def carryOut (rt : Runtime) (io : Io) : Nat → List PipelineCommand → KvStore →
    List PipelineResult × KvStore
  | _, [], store => ([], store)
  | n, cmd :: cmds, store =>
      let r := cmd.execute rt (io.now n) (io.failure n cmd) store
      let rest := carryOut rt io (n + 1) cmds r.2
      (r.1 :: rest.1, rest.2)

theorem carryOut_append (rt : Runtime) (io : Io) (l₁ l₂ : List PipelineCommand) :
    ∀ (n : Nat) (store : KvStore), carryOut rt io n (l₁ ++ l₂) store
      = ((carryOut rt io n l₁ store).1 ++ (carryOut rt io (n + l₁.length) l₂
            (carryOut rt io n l₁ store).2).1,
          (carryOut rt io (n + l₁.length) l₂ (carryOut rt io n l₁ store).2).2) := by
  induction l₁ with
  | nil => intro n store; rfl
  | cons cmd l₁ ih =>
      intro n store
      rw [List.cons_append, carryOut, ih, carryOut, List.length_cons, Nat.add_right_comm,
        ← Nat.add_assoc]
      rfl

theorem executeAll_eq (rt : Runtime) (io : Io) (cmds : List PipelineCommand) :
    ∀ (n : Nat) (srv : Server) (store : KvStore),
      executeAll rt io n (cmds.zip (Server.batchWal io n cmds srv).1) store
        = carryOut rt io n cmds store := by
  induction cmds with
  | nil => intro n srv store; rfl
  | cons cmd cmds ih =>
      intro n srv store
      unfold Server.batchWal carryOut
      cases hop : cmd.logged with
      | none =>
          have hfailure : io.failure n cmd = none := by rw [Io.failure, hop]; rfl
          simp only [List.zip_cons_cons, executeAll, hfailure, ih]
      | some op =>
          have hfailure : io.failure n cmd = (io.disk n).map KvStoreError.toString := by
            rw [Io.failure, hop]
            rfl
          cases hdisk : io.disk n with
          | some e =>
              simp only [Server.append, hdisk, List.zip_cons_cons, executeAll, hfailure,
                Option.map_some, ih]
          | none =>
              simp only [Server.append, hdisk, List.zip_cons_cons, executeAll, hfailure,
                Option.map_none, ih]

namespace Server

/-- An admitted pipeline answers with the results of its commands, in order. -/
theorem pipelineExec_fst (rt : Runtime) (srv : Server) (io : Io) {commands : List PipelineCommand}
    (h : pipelineAdmitted commands = true) :
    (srv.pipelineExec rt io commands).1
      = ⟨200, .json (.obj [("results",
          .arr ((carryOut rt io 0 commands srv.store).1.map PipelineResult.toJson))])⟩ := by
  obtain ⟨hnonempty, hlength⟩ : commands.isEmpty = false ∧ commands.length ≤ maxPipelineCommands := by
    simpa [pipelineAdmitted] using h
  unfold pipelineExec
  rw [if_neg (by simp [hnonempty]), if_neg (by omega)]
  simp only [batchWal_snd, executeAll_eq]

/-- It leaves the store that they leave, but for the events, which are published. -/
theorem pipelineExec_store (rt : Runtime) (srv : Server) (io : Io) {commands : List PipelineCommand}
    (h : pipelineAdmitted commands = true) :
    Settled (carryOut rt io 0 commands srv.store).2 (srv.pipelineExec rt io commands).2.store := by
  obtain ⟨hnonempty, hlength⟩ : commands.isEmpty = false ∧ commands.length ≤ maxPipelineCommands := by
    simpa [pipelineAdmitted] using h
  unfold pipelineExec
  rw [if_neg (by simp [hnonempty]), if_neg (by omega)]
  simp only [batchWal_snd, executeAll_eq]
  exact ⟨[], rfl⟩

end Server

/-! ## One command as a request of its own -/

/-- The environment of the n-th command when it is sent by itself. -/
def Io.nth (io : Io) (n : Nat) : Io :=
  { headers := io.headers
    loggedAt := fun _ => io.loggedAt n
    now := fun _ => io.now n
    disk := fun _ => io.disk n }

/-- A command sent as a request of its own; the plain reads do not ask for the API key. -/
def PipelineCommand.single (rt : Runtime) (srv : Server) (io : Io) :
    PipelineCommand → Response × Server
  | get key => (srv.getValue rt io key, srv)
  | set key value ttlSecs => srv.handle rt io (.setValue key value ttlSecs)
  | delete key => srv.handle rt io (.deleteValue key)
  | incr key => srv.handle rt io (.incrValue key)
  | decr key => srv.handle rt io (.decrValue key)
  | incrBy key amount => srv.handle rt io (.incrbyValue key amount)
  | append key value => srv.handle rt io (.appendValue key value)
  | getSet key value => srv.handle rt io (.getsetValue key value)
  | exists_ key => (srv.existsKey io key, srv)
  | mGet keys => (srv.mgetValues rt io keys, srv)
  | lPush key values => srv.handle rt io (.listLpush key values)
  | rPush key values => srv.handle rt io (.listRpush key values)
  | lPop key => srv.handle rt io (.listLpop key)
  | rPop key => srv.handle rt io (.listRpop key)
  -- the list handlers ask for the key, reads included
  | lRange key start stop =>
      ((requireApiKey io.headers srv.runtime).getD (srv.listLrange io key start stop), srv)
  | lLen key => ((requireApiKey io.headers srv.runtime).getD (srv.listLlen io key), srv)

/-- The commands from the n-th on, sent one after another. -/
def singles (rt : Runtime) (io : Io) : Nat → List PipelineCommand → Server → List Response × Server
  | _, [], srv => ([], srv)
  | n, cmd :: cmds, srv =>
      let r := cmd.single rt srv (io.nth n)
      let rest := singles rt io (n + 1) cmds r.2
      (r.1 :: rest.1, rest.2)

/-- The request is answered, if only with the news that there is no such key. -/
def Response.Answered (r : Response) : Prop := r.status = 200 ∨ r.status = 404

/-- The command is reported as done. -/
def PipelineResult.Succeeded (r : PipelineResult) : Prop := r.status = "ok"

/-- The operation, less the text that a SET logs for its value. -/
def WalOperation.withoutSetText : WalOperation → WalOperation
  | set key _ ttlSecs => set key "" ttlSecs
  | op => op

/-- The entry, less that text. -/
def WalEntry.withoutSetText (entry : WalEntry) : WalEntry :=
  { entry with operation := entry.operation.withoutSetText }

/-- The command is no SET with a time to live of zero, which a single request refuses. -/
def PipelineCommand.Lives : PipelineCommand → Prop
  | set _ _ (some 0) => False
  | _ => True

/-! ## Outcomes -/

theorem PipelineResult.ofResult_succeeded {α : Type} (value : α → Option Json)
    (r : Except KvStoreError α × KvStore) :
    (PipelineResult.ofResult value r).1.Succeeded ↔ ∃ a, r.1 = .ok a := by
  rcases r with ⟨e | a, store⟩
  · simp [ofResult, Succeeded, failed]
  · simp [ofResult, Succeeded, ok]

theorem Response.ofResult_answered {α : Type} (body : α → Body)
    (r : Except KvStoreError α × KvStore) :
    (Response.ofResult body r).1.Answered ↔ ∃ a, r.1 = .ok a := by
  rcases r with ⟨e | a, store⟩
  · simp [ofResult, Answered]
  · simp [ofResult, Answered]

namespace KvStore

theorem reply_ok {α : Type} (f : α → Reply) (r : Except KvStoreError α × KvStore) :
    (∃ b, (reply f r).1 = .ok b) ↔ ∃ a, r.1 = .ok a := by
  rcases r with ⟨e | a, store⟩
  · simp [reply, Except.map]
  · simp [reply, Except.map]

end KvStore

/-- A command that was logged succeeds exactly if its store call does. -/
theorem PipelineCommand.run_succeeded {rt : Runtime} {now : Nat} {store : KvStore}
    {cmd : PipelineCommand} {op : WalOperation} (h : cmd.logged = some op) :
    (cmd.run rt now store).1.Succeeded ↔ ∃ b, (store.write rt now op.raw).1 = .ok b := by
  cases cmd with
  | get _ | exists_ _ | mGet _ | lRange _ _ _ | lLen _ => cases h
  | delete key =>
      cases h
      exact ⟨fun _ => ⟨_, rfl⟩, fun _ => rfl⟩
  | set key value ttl =>
      cases h
      cases ttl <;> exact (PipelineResult.ofResult_succeeded _ _).trans (KvStore.reply_ok _ _).symm
  | _ =>
      cases h
      exact (PipelineResult.ofResult_succeeded _ _).trans (KvStore.reply_ok _ _).symm

namespace Server

theorem expiryAnswer_answered (r : Bool × KvStore) : (expiryAnswer r).1.Answered := by
  obtain ⟨b, store⟩ := r
  cases b
  · exact .inr rfl
  · exact .inl rfl

/-- A log-first request whose append succeeds is answered exactly if its store call succeeds. -/
theorem handle_loggedWrite_answered {rt : Runtime} {srv : Server} {io : Io} {req : Request}
    {op : WalOperation} {w : Write} (h : req.loggedWrite rt = some (op, w))
    (hkey : requireApiKey io.headers srv.runtime = none) (hdisk : io.disk 0 = none) :
    (srv.handle rt io req).1.Answered ↔ ∃ b, (srv.store.write rt (io.now 0) w).1 = .ok b := by
  simp only [handle, hkey]
  cases req with
  | setValue key value ttl =>
      obtain ⟨httl, json, hjson, rfl, rfl⟩ := Request.loggedWrite_setValue h
      simp only [dispatch, setValue, if_neg httl, hjson, logFirst_response hdisk]
      cases ttl <;>
        exact (Response.ofResult_answered _ _).trans (KvStore.reply_ok _ _).symm
  | deleteValue key =>
      cases h
      simp only [dispatch, deleteValue, logFirst_response hdisk]
      refine ⟨fun _ => ⟨_, rfl⟩, fun _ => ?_⟩
      rcases srv.store.delete (io.now 0) key with ⟨_ | _, store⟩
      · exact .inr rfl
      · exact .inl rfl
  | setExpire key ttl =>
      obtain ⟨httl, rfl, rfl⟩ := Request.loggedWrite_setExpire h
      simp only [dispatch, setExpire, if_neg httl, logFirst_response hdisk]
      exact ⟨fun _ => ⟨_, rfl⟩, fun _ => expiryAnswer_answered _⟩
  | persistKey key =>
      cases h
      simp only [dispatch, persistKey, logFirst_response hdisk]
      exact ⟨fun _ => ⟨_, rfl⟩, fun _ => expiryAnswer_answered _⟩
  | hashHincrbyfloat _ _ _ | pipelineExec _ | luaExec _ | cleanupExpired | multi | exec | discard
  | hllPfadd _ _ | hllPfreserve _ _ | hllPfmerge _ _ | setKeyspaceConfig _
  | pitrRecoverToTimestamp _ _ | pitrRecoverLatestSnapshot _ => cases h
  | _ =>
      cases h
      simp only [dispatch, incrValue, decrValue, incrbyValue, appendValue, getsetValue, msetValues,
        listLpush, listRpush, listLpop, listRpop, hashHset, hashHdel, hashHincrby,
        logFirst_response hdisk]
      exact (Response.ofResult_answered _ _).trans (KvStore.reply_ok _ _).symm

end Server

theorem Server.logFirst_runtime {srv : Server} {io : Io} {failure : String} {op : WalOperation}
    {publish : Bool} {call : KvStore → Response × KvStore} :
    (srv.logFirst io failure op publish call).2.runtime = srv.runtime := by
  unfold logFirst append
  cases io.disk 0 with
  | some e => rfl
  | none => cases publish <;> rfl

theorem Server.handle_loggedWrite_runtime {rt : Runtime} {srv : Server} {io : Io} {req : Request}
    {op : WalOperation} {w : Write} (h : req.loggedWrite rt = some (op, w))
    (hkey : requireApiKey io.headers srv.runtime = none) :
    (srv.handle rt io req).2.runtime = srv.runtime := by
  obtain ⟨failure, publish, call, hdispatch, -⟩ := dispatch_loggedWrite srv io h
  simp only [handle, hkey, hdispatch]
  exact logFirst_runtime

/-! ## One by one -/

/-- The request that a logged command is sent as: it makes the same call, and logs the same operation
but for the text of a SET. -/
theorem PipelineCommand.single_logged {rt : Runtime} (hserde : rt.StrRoundTrip)
    {cmd : PipelineCommand} {op : WalOperation} (h : cmd.logged = some op) (hlives : cmd.Lives) :
    ∃ req op', (∀ srv io, cmd.single rt srv io = srv.handle rt io req) ∧
      req.loggedWrite rt = some (op', op.raw) ∧ op'.withoutSetText = op.withoutSetText := by
  cases cmd with
  | get _ | exists_ _ | mGet _ | lRange _ _ _ | lLen _ => cases h
  | set key value ttl =>
      cases h
      obtain ⟨json, hjson, -⟩ := hserde value
      have httl : ttl ≠ some 0 := by
        rintro rfl
        exact hlives
      refine ⟨.setValue key value ttl, .set key json ttl, fun _ _ => rfl, ?_, rfl⟩
      simp only [Request.loggedWrite, if_neg httl, hjson]
  | _ =>
      cases h
      exact ⟨_, _, fun _ _ => rfl, rfl, rfl⟩

/-- The reads look at the entries only. -/
theorem PipelineCommand.single_unlogged {rt : Runtime} {srv : Server} {io : Io} {store : KvStore}
    {cmd : PipelineCommand} (h : cmd.logged = none) (hsame : store.quiet = srv.store.quiet)
    (hkey : requireApiKey io.headers srv.runtime = none) :
    ((cmd.run rt (io.now 0) store).1.Succeeded ↔ (cmd.single rt srv io).1.Answered) ∧
      (cmd.single rt srv io).2 = srv := by
  have hstore : store.store = srv.store.store := by
    show store.quiet.store = srv.store.quiet.store
    rw [hsame]
  have hget : ∀ key, store.get (io.now 0) key = srv.store.get (io.now 0) key := fun key => by
    simp only [KvStore.get, hstore]
  cases cmd with
  | get key =>
      refine ⟨⟨fun _ => ?_, fun _ => rfl⟩, rfl⟩
      simp only [single, Server.getValue]
      split
      · exact .inl rfl
      · exact .inr rfl
  | exists_ key => exact ⟨⟨fun _ => .inl rfl, fun _ => rfl⟩, rfl⟩
  | mGet keys => exact ⟨⟨fun _ => .inl rfl, fun _ => rfl⟩, rfl⟩
  | lRange key start stop =>
      refine ⟨?_, rfl⟩
      have hrange : store.lrange (io.now 0) key (start.getD 0) (stop.getD (-1))
          = srv.store.lrange (io.now 0) key (start.getD 0) (stop.getD (-1)) := by
        unfold KvStore.lrange
        rw [hget]
      simp only [run, single, hkey, Option.getD_none, Server.listLrange, hrange]
      rw [PipelineResult.ofResult_succeeded, Response.ofResult_answered]
  | lLen key =>
      refine ⟨?_, rfl⟩
      have hlen : store.llen (io.now 0) key = srv.store.llen (io.now 0) key := by
        unfold KvStore.llen
        rw [hget]
      simp only [run, single, hkey, Option.getD_none, Server.listLlen, hlen]
      rw [PipelineResult.ofResult_succeeded, Response.ofResult_answered]
  | _ => cases h

/-- The step: from stores that differ in their events only, a command does the same either way. -/
theorem PipelineCommand.single_simulates {rt : Runtime} (hserde : rt.StrRoundTrip) {srv : Server}
    {io : Io} {store : KvStore} (cmd : PipelineCommand) (hlives : cmd.Lives)
    (hsame : store.quiet = srv.store.quiet) (hkey : requireApiKey io.headers srv.runtime = none)
    (hdisk : io.disk 0 = none) :
    ((cmd.run rt (io.now 0) store).1.Succeeded ↔ (cmd.single rt srv io).1.Answered) ∧
      (cmd.run rt (io.now 0) store).2.quiet = (cmd.single rt srv io).2.store.quiet ∧
      (cmd.single rt srv io).2.runtime = srv.runtime ∧
      ∃ entries, (cmd.single rt srv io).2.wal = srv.wal ++ entries ∧
        entries.map WalEntry.withoutSetText
          = (cmd.logged.map fun op => (WalEntry.new (io.loggedAt 0) op).withoutSetText).toList := by
  cases hop : cmd.logged with
  | none =>
      -- a read: no call, no entry, and it sees the same entries
      obtain ⟨houtcome, hsrv⟩ := single_unlogged hop hsame hkey
      refine ⟨houtcome, ?_, by rw [hsrv], [], by rw [hsrv]; simp, rfl⟩
      rw [run_unlogged hop, hsrv]
      exact hsame
  | some op =>
      obtain ⟨req, op', hsingle, hwrite, htext⟩ := single_logged hserde hop hlives
      rw [hsingle]
      obtain ⟨hresult, hstore⟩ := KvStore.write_alike rt hsame (io.now 0) op.raw
      obtain ⟨hwal, hsettled⟩ := Server.handle_loggedWrite hwrite hkey hdisk
      refine ⟨?_, ?_, Server.handle_loggedWrite_runtime hwrite hkey, _, hwal, ?_⟩
      · rw [run_succeeded hop, Server.handle_loggedWrite_answered hwrite hkey hdisk, hresult]
      · rw [run_logged hop, hstore]
        exact hsettled.quiet.symm
      · simp only [List.map_cons, List.map_nil, WalEntry.withoutSetText, WalEntry.new, htext]
        rfl

theorem pipelineEffects_logged {io : Io} (hdisk : ∀ n, io.disk n = none) (n : Nat)
    (cmd : PipelineCommand) (cmds : List PipelineCommand) :
    (pipelineEffects io n (cmd :: cmds)).filterMap Effect.logged
      = (cmd.logged.map fun op => WalEntry.new (io.loggedAt n) op).toList
          ++ (pipelineEffects io (n + 1) cmds).filterMap Effect.logged := by
  rw [pipelineEffects, List.filterMap_append]
  cases cmd.logged with
  | none => rfl
  | some op => simp only [Io.effect, hdisk]; rfl

/-- A result and an answer that report the same outcome. -/
def SameOutcome (result : PipelineResult) (response : Response) : Prop :=
  result.Succeeded ↔ response.Answered

/-- The run: the commands from the n-th on. -/
theorem singles_simulate {rt : Runtime} (hserde : rt.StrRoundTrip) {io : Io}
    (hdisk : ∀ n, io.disk n = none) (cmds : List PipelineCommand) :
    ∀ (n : Nat) (srv : Server) (store : KvStore), (∀ cmd ∈ cmds, cmd.Lives) →
      store.quiet = srv.store.quiet → requireApiKey io.headers srv.runtime = none →
      List.Forall₂ SameOutcome (carryOut rt io n cmds store).1 (singles rt io n cmds srv).1 ∧
        (carryOut rt io n cmds store).2.quiet = (singles rt io n cmds srv).2.store.quiet ∧
        ∃ entries, (singles rt io n cmds srv).2.wal = srv.wal ++ entries ∧
          entries.map WalEntry.withoutSetText
            = ((pipelineEffects io n cmds).filterMap Effect.logged).map WalEntry.withoutSetText := by
  induction cmds with
  | nil => intro n srv store _ hsame _; exact ⟨.nil, hsame, [], by simp [singles], rfl⟩
  | cons cmd cmds ih =>
      intro n srv store hlives hsame hkey
      -- the log works, so no command is skipped
      have hrun : cmd.execute rt (io.now n) (io.failure n cmd) store = cmd.run rt (io.now n) store := by
        have hfailure : io.failure n cmd = none := by
          rw [Io.failure, hdisk]
          cases cmd.logged <;> rfl
        rw [hfailure]
        rfl
      obtain ⟨houtcome, hstore, hruntime, entries, hwal, hentries⟩ :=
        @PipelineCommand.single_simulates rt hserde srv (io.nth n) store cmd (hlives cmd (by simp)) hsame
          hkey (hdisk n)
      obtain ⟨houtcomes, hstores, rest, hwals, hrest⟩ :=
        ih (n + 1) (cmd.single rt srv (io.nth n)).2 (cmd.run rt (io.now n) store).2
          (fun c hc => hlives c (List.mem_cons_of_mem _ hc)) hstore (by rw [hruntime]; exact hkey)
      rw [carryOut, singles, hrun]
      refine ⟨.cons houtcome houtcomes, hstores, entries ++ rest, ?_, ?_⟩
      · rw [← List.append_assoc, ← hwal]
        exact hwals
      · rw [List.map_append, hentries, hrest, pipelineEffects_logged hdisk, List.map_append]
        cases cmd.logged <;> rfl

/-- What a pipeline has in common with its commands sent one by one. -/
structure EqualsSingles (rt : Runtime) (srv : Server) (io : Io) (commands : List PipelineCommand) :
    Prop where
  /-- Result by result, a command succeeds where the single request is answered. -/
  outcomes : ∃ results, (srv.handle rt io (.pipelineExec commands)).1
      = ⟨200, .json (.obj [("results", .arr (results.map PipelineResult.toJson))])⟩ ∧
    List.Forall₂ SameOutcome results (singles rt io 0 commands srv).1
  /-- The entries after every number of commands. -/
  contents : ∀ n, (carryOut rt io 0 (commands.take n) srv.store).2.contents
    = (singles rt io 0 (commands.take n) srv).2.store.contents
  /-- The entries at the end. -/
  final : (srv.handle rt io (.pipelineExec commands)).2.store.contents
    = (singles rt io 0 commands srv).2.store.contents
  /-- The operations that are appended, with their time stamps. -/
  logged : ∃ entries entries', (srv.handle rt io (.pipelineExec commands)).2.wal = srv.wal ++ entries ∧
    (singles rt io 0 commands srv).2.wal = srv.wal ++ entries' ∧
    entries'.map WalEntry.withoutSetText = entries.map WalEntry.withoutSetText

theorem KvStore.contents_of_quiet {s t : KvStore} (h : s.quiet = t.quiet) :
    s.contents = t.contents := by
  show s.quiet.contents = t.quiet.contents
  rw [h]

/-- An admitted pipeline with a working log equals its commands sent one by one, but for the text that
a SET logs. -/
theorem pipeline_equals_singles {rt : Runtime} (hserde : rt.StrRoundTrip) (srv : Server) {io : Io}
    {commands : List PipelineCommand} (hkey : requireApiKey io.headers srv.runtime = none)
    (hdisk : ∀ n, io.disk n = none) (hsome : commands ≠ [])
    (hmax : commands.length ≤ maxPipelineCommands) (hlives : ∀ cmd ∈ commands, cmd.Lives) :
    EqualsSingles rt srv io commands := by
  have hadmitted : pipelineAdmitted commands = true := by
    simp [pipelineAdmitted, hsome, hmax]
  have hrun := fun cmds h => singles_simulate hserde hdisk cmds 0 srv srv.store h rfl hkey
  obtain ⟨houtcomes, hstore, entries, hwal, hentries⟩ := hrun commands hlives
  have hhandle : srv.handle rt io (.pipelineExec commands) = srv.pipelineExec rt io commands := by
    simp only [Server.handle, hkey]
    rfl
  refine ⟨?_, fun n => ?_, ?_, ?_⟩
  · rw [hhandle]
    exact ⟨_, srv.pipelineExec_fst rt io hadmitted, houtcomes⟩
  · exact KvStore.contents_of_quiet
      (hrun (commands.take n) fun cmd hcmd => hlives cmd (List.mem_of_mem_take hcmd)).2.1
  · rw [hhandle, (srv.pipelineExec_store rt io hadmitted).contents]
    exact KvStore.contents_of_quiet hstore
  · refine ⟨_, entries, ?_, hwal, hentries⟩
    rw [hhandle, (Server.pipelineExec_snd rt srv io commands).1]
    simp only [Server.dispatchEffects, hadmitted, if_true]

theorem pipeline_equals_singles_lpush :
    EqualsSingles .strings (.fresh {} none false) (Io.healthy 5) [.lPush "k" ["a"], .get "k"] := by
  refine pipeline_equals_singles Runtime.strings_strRoundTrip _ rfl (fun _ => rfl) (by simp)
    (by decide) fun cmd hcmd => ?_
  rcases List.mem_cons.mp hcmd with rfl | hcmd
  · trivial
  · rw [List.mem_singleton.mp hcmd]
    trivial

/-- Deleting a missing key is a success in a pipeline and a 404 by itself; a pipeline takes a time to
live of zero; and it logs another text for a SET. -/
theorem pipeline_differs :
    ((Server.fresh {} none false).handle .strings (Io.healthy 5) (.pipelineExec [.delete "k"])).1
        = ⟨200, .json (.obj [("results",
            .arr [.obj [("status", .str "ok"), ("value", .bool false)]])])⟩ ∧
      ((Server.fresh {} none false).handle .strings (Io.healthy 5) (.deleteValue "k")).1.status = 404 ∧
      ((Server.fresh {} none false).handle .strings (Io.healthy 5)
          (.pipelineExec [.set "k" "v" (some 0)])).1
        = ⟨200, .json (.obj [("results", .arr [.obj [("status", .str "ok")]])])⟩ ∧
      ((Server.fresh {} none false).handle .strings (Io.healthy 5)
          (.setValue "k" "v" (some 0))).1.status = 400 ∧
      ((Server.fresh {} none false).handle .strings (Io.healthy 5)
          (.pipelineExec [.set "k" "v" none])).2.wal
        ≠ ((Server.fresh {} none false).handle .strings (Io.healthy 5) (.setValue "k" "v" none)).2.wal := by
  refine ⟨rfl, rfl, rfl, rfl, ?_⟩
  decide +kernel

end Daikon
