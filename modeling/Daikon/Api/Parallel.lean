/-
# Daikon.Api.Parallel -- handlers side by side

The server runs its handlers in parallel. A handler appends its entries one by one, then gets the lock of
the store, once, and makes its store calls; a pipeline makes all of them under that lock. Between these
steps any others may come. Whatever the order, the clients are answered, and the store is left, as if the
requests had been served one by one in the order in which they got the lock (`as_if_one_by_one`). Of the
log as much can be said of its entries only, not of their order.

An append is one step here: the entry is in the log, or the append has failed and it is not. In the source
it is two writes to a file that each append opens for itself, and no lock is held around them, so the
writes of two appends may come between each other. What the file is then, and when it is still read back,
is the subject of `read_all_lossless_iff` in `Daikon.Wal.Interleaved`; the two questions meet in nothing
but the log, which no handler of this module reads.

The proof moves no step past another. It goes by the order of the lock: of a handler that has appended and
not got the lock yet, the state holds nothing that another handler could read, since none of them reads the
log. So the store is at every moment what the requests that had the lock have made of it, and each of them
found it so.
-/
import Daikon.Api.Local

namespace Daikon

/-! ## The parts of a handler -/

/-- `hash_hincrbyfloat` logs its result, and a script logs call by call: both hold the lock then. -/
def Request.logsUnderLock : Request → Bool
  | hashHincrbyfloat _ _ _ | luaExec _ => true
  | _ => false

namespace Server

section

variable (rt : Runtime) (srv : Server) (io : Io) (req : Request)

/-- The entries that a handler appends before it asks for the lock. -/
def upfront : List WalEntry :=
  if req.logsUnderLock then [] else (srv.effects rt io req).filterMap Effect.logged

/-- The rest of a handler, under the lock. What it appended before that is in the log already. -/
def locked : Response × Server :=
  let r := srv.handle rt io req
  (r.1, if req.logsUnderLock then r.2 else { r.2 with wal := srv.wal })

end

/-- The same but for the log. -/
structure Twins (srv srv' : Server) : Prop where
  store : srv.store = srv'.store
  published : srv.published = srv'.published
  runtime : srv.runtime = srv'.runtime

/-- The same answer, and the same servers but for the log. -/
def TwinAnswers (r r' : Response × Server) : Prop := r.1 = r'.1 ∧ Twins r.2 r'.2

theorem Twins.refl (srv : Server) : Twins srv srv := ⟨rfl, rfl, rfl⟩

theorem Twins.trans {a b c : Server} (h : Twins a b) (h' : Twins b c) : Twins a c :=
  ⟨h.store.trans h'.store, h.published.trans h'.published, h.runtime.trans h'.runtime⟩

section

variable {rt : Runtime} {srv srv' : Server}

theorem Twins.publishKeyspaceEvents (h : Twins srv srv') :
    Twins srv.publishKeyspaceEvents srv'.publishKeyspaceEvents where
  store := congrArg (fun s : KvStore => s.drainKeyspaceEvents.2) h.store
  published := by
    unfold Server.publishKeyspaceEvents
    rw [h.store, h.published]
  runtime := h.runtime

/-- No handler reads the log. -/
theorem logFirst_twins (h : Twins srv srv') (io : Io) (failure : String) (op : WalOperation) (publish : Bool)
    (call : KvStore → Response × KvStore) :
    TwinAnswers (srv.logFirst io failure op publish call) (srv'.logFirst io failure op publish call) := by
  unfold logFirst append
  cases io.disk 0 with
  | some e => exact ⟨rfl, h⟩
  | none =>
      simp only [h.store]
      refine ⟨rfl, ?_⟩
      have hcalled : ∀ wal wal' : List WalEntry,
          Twins { srv with store := (call srv'.store).2, wal }
            { srv' with store := (call srv'.store).2, wal := wal' } :=
        fun _ _ => ⟨rfl, h.published, h.runtime⟩
      cases publish with
      | false => exact hcalled _ _
      | true => exact (hcalled _ _).publishKeyspaceEvents

theorem batchWal_fst (io : Io) (cmds : List PipelineCommand) : ∀ (n : Nat) (srv srv' : Server),
    (batchWal io n cmds srv).1 = (batchWal io n cmds srv').1 := by
  induction cmds with
  | nil => exact fun _ _ _ => rfl
  | cons cmd cmds ih =>
      intro n srv srv'
      unfold batchWal
      cases cmd.logged with
      | none => exact congrArg (none :: ·) (ih (n + 1) srv srv')
      | some op =>
          unfold append
          cases io.disk n with
          | some e => exact congrArg (some e.toString :: ·) (ih (n + 1) srv srv')
          | none => exact congrArg (none :: ·) (ih (n + 1) _ _)

theorem pipelineExec_twins (h : Twins srv srv') (io : Io) (commands : List PipelineCommand) :
    TwinAnswers (srv.pipelineExec rt io commands) (srv'.pipelineExec rt io commands) := by
  unfold pipelineExec
  split
  · exact ⟨rfl, h⟩
  · split
    · exact ⟨rfl, h⟩
    · simp only [batchWal_snd, batchWal_fst io commands 0 srv srv', h.store]
      exact ⟨rfl, Twins.publishKeyspaceEvents ⟨rfl, h.published, h.runtime⟩⟩

theorem hashHincrbyfloat_twins (h : Twins srv srv') (io : Io) (key field : String) (amount : Float) :
    TwinAnswers (srv.hashHincrbyfloat rt io key field amount)
      (srv'.hashHincrbyfloat rt io key field amount) := by
  unfold hashHincrbyfloat append
  rw [h.store]
  rcases srv'.store.hincrbyfloat rt key field amount with ⟨e | value, store⟩
  · exact ⟨rfl, rfl, h.published, h.runtime⟩
  · cases io.disk 0 <;> exact ⟨rfl, rfl, h.published, h.runtime⟩

theorem luaExec_twins (h : Twins srv srv') (io : Io) (script : LuaScript) :
    TwinAnswers (srv.luaExec rt io script) (srv'.luaExec rt io script) := by
  unfold luaExec
  simp only [luaCalls_eq, h.store, h.runtime]
  split
  · exact ⟨rfl, h⟩
  · split
    · exact ⟨rfl, h⟩
    · split
      · exact ⟨rfl, h⟩
      · split <;> exact ⟨rfl, rfl, h.published, rfl⟩

theorem dispatch_twins (h : Twins srv srv') (io : Io) (req : Request) :
    TwinAnswers (srv.dispatch rt io req) (srv'.dispatch rt io req) := by
  have hanswer : ∀ {α : Type} (body : α → Json) (r : Except KvStoreError α × KvStore),
      TwinAnswers (srv.transactionAnswer body r) (srv'.transactionAnswer body r) := by
    intro α body r
    unfold transactionAnswer
    split <;> exact ⟨rfl, rfl, h.published, h.runtime⟩
  cases req with
  | setValue key value ttl =>
      simp only [dispatch, setValue]
      split
      · exact ⟨rfl, h⟩
      · split
        · exact ⟨rfl, h⟩
        · exact logFirst_twins h io _ _ _ _
  | setExpire key ttl =>
      simp only [dispatch, setExpire]
      split
      · exact ⟨rfl, h⟩
      · exact logFirst_twins h io _ _ _ _
  | hashHincrbyfloat key field amount => exact hashHincrbyfloat_twins h io key field amount
  | pipelineExec commands => exact pipelineExec_twins h io commands
  | luaExec script => exact luaExec_twins h io script
  | cleanupExpired =>
      simp only [dispatch, cleanupExpired, h.store]
      exact ⟨rfl, Twins.publishKeyspaceEvents ⟨rfl, h.published, h.runtime⟩⟩
  | multi => simp only [dispatch, multi, h.store]; exact hanswer _ _
  | exec => simp only [dispatch, exec, h.store]; exact hanswer _ _
  | discard => simp only [dispatch, discard, h.store]; exact hanswer _ _
  | hllPfadd key values =>
      simp only [dispatch, hllPfadd, hllAnswer, h.store]
      exact ⟨rfl, rfl, h.published, h.runtime⟩
  | hllPfreserve key precision =>
      simp only [dispatch, hllPfreserve, hllAnswer, h.store]
      exact ⟨rfl, rfl, h.published, h.runtime⟩
  | hllPfmerge destination sources =>
      simp only [dispatch, hllPfmerge, hllAnswer, h.store]
      exact ⟨rfl, rfl, h.published, h.runtime⟩
  | setKeyspaceConfig enabled =>
      simp only [dispatch, setKeyspaceConfig, h.store]
      exact ⟨rfl, rfl, h.published, h.runtime⟩
  | pitrRecoverToTimestamp target recovered =>
      cases recovered with
      | error e => exact ⟨rfl, h⟩
      | ok store => exact ⟨rfl, rfl, h.published, h.runtime⟩
  | pitrRecoverLatestSnapshot recovered =>
      cases recovered with
      | error e => exact ⟨rfl, h⟩
      | ok store => exact ⟨rfl, rfl, h.published, h.runtime⟩
  | _ => exact logFirst_twins h io _ _ _ _

theorem handle_twins (rt : Runtime) (h : Twins srv srv') (io : Io) (req : Request) :
    TwinAnswers (srv.handle rt io req) (srv'.handle rt io req) := by
  unfold handle
  rw [h.runtime]
  cases requireApiKey io.headers srv'.runtime with
  | some refusal => exact ⟨rfl, h⟩
  | none => exact dispatch_twins h io req

theorem effects_twins (h : Twins srv srv') (io : Io) (req : Request) :
    srv.effects rt io req = srv'.effects rt io req := by
  unfold effects
  rw [h.runtime]
  cases requireApiKey io.headers srv'.runtime with
  | some refusal => rfl
  | none =>
      cases req with
      | luaExec script =>
          have hadmitted : srv.luaAdmitted script = srv'.luaAdmitted script := by
            rw [luaAdmitted, luaAdmitted, h.store, h.runtime]
          simp only [dispatchEffects, hadmitted]
      | hashHincrbyfloat key field amount => simp only [dispatchEffects, h.store]
      | _ => rfl

/-- What is appended before the lock depends on the settings only. -/
theorem upfront_congr (hruntime : srv.runtime = srv'.runtime) (io : Io) (req : Request) :
    srv.upfront rt io req = srv'.upfront rt io req := by
  unfold upfront effects
  rw [hruntime]
  cases req <;> rfl

theorem upfront_of_lock {req : Request} (h : req.logsUnderLock = true) (srv : Server) (io : Io) :
    srv.upfront rt io req = [] := if_pos h

theorem upfront_of_not_lock {req : Request} (h : ¬ req.logsUnderLock = true) (srv : Server) (io : Io) :
    srv.upfront rt io req = (srv.effects rt io req).filterMap Effect.logged := if_neg h

theorem Twins.eq (h : Twins srv srv') (hwal : srv.wal = srv'.wal) : srv = srv' := by
  cases srv
  cases srv'
  obtain ⟨rfl, rfl, rfl⟩ := h
  cases hwal
  rfl

/-- Under the lock a handler does what it does, but for the entries it has appended before. -/
theorem locked_twins (rt : Runtime) (srv : Server) (io : Io) (req : Request) :
    TwinAnswers (srv.handle rt io req) (srv.locked rt io req) := by
  unfold locked
  cases req.logsUnderLock <;> exact ⟨rfl, rfl, rfl, rfl⟩

/-- The parts of a handler one after the other are the handler. -/
theorem upfront_locked (srv : Server) (io : Io) (req : Request) :
    { srv with wal := srv.wal ++ srv.upfront rt io req }.locked rt io req = srv.handle rt io req := by
  have hlogged : Twins { srv with wal := srv.wal ++ srv.upfront rt io req } srv := ⟨rfl, rfl, rfl⟩
  obtain ⟨hanswer, hafter⟩ := handle_twins rt hlogged io req
  unfold locked
  refine Prod.ext hanswer ?_
  by_cases hlock : req.logsUnderLock = true
  · simp only [hlock, if_true]
    refine hafter.eq ?_
    rw [handle_wal, handle_wal, effects_twins hlogged, upfront_of_lock hlock, List.append_nil]
  · simp only [if_neg hlock]
    refine Twins.eq ⟨hafter.store, hafter.published, hafter.runtime⟩ ?_
    rw [handle_wal, upfront_of_not_lock hlock]

end

end Server

/-! ## Handlers in parallel -/

/-- A handler that has not got the lock yet: what it has appended, and what it is to append. -/
structure Ongoing where
  io : Io
  req : Request
  logged : List WalEntry := []
  toLog : List WalEntry

/-- What is served under the lock: a request, or a read, which answers from the store. -/
inductive Served where
  | request (io : Io) (req : Request)
  | read (answer : KvStore → Response)

/-- One by one. -/
def Served.serve (rt : Runtime) (srv : Server) : Served → Response × Server
  | request io req => srv.handle rt io req
  | read answer => (answer srv.store, srv)

/-- A server, the handlers at work, and what has been answered. -/
structure Parallel where
  server : Server
  ongoing : List Ongoing := []
  /-- What was served and how it was answered, in the order of the locks. -/
  done : List (Served × Response) := []

namespace Parallel

/-- The next thing that happens: a step of a handler, or a read, which takes one step. -/
inductive Action where
  /-- A request comes in. -/
  | start (io : Io) (req : Request)
  /-- The i-th handler appends its next entry. -/
  | append (i : Nat)
  /-- The i-th handler gets the lock, if it has made its appends, and answers. -/
  | lock (i : Nat)
  /-- A reader gets the lock and answers. -/
  | read (answer : KvStore → Response)

/-- What happens then. A handler that is not so far does nothing. -/
def step (rt : Runtime) (s : Parallel) : Action → Parallel
  | .start io req => { s with ongoing := s.ongoing ++ [{ io, req, toLog := s.server.upfront rt io req }] }
  | .append i =>
      match s.ongoing[i]? with
      | some { io, req, logged, toLog := entry :: toLog } =>
          { s with
            server := { s.server with wal := s.server.wal ++ [entry] }
            ongoing := s.ongoing.set i { io, req, logged := logged ++ [entry], toLog } }
      | _ => s
  | .lock i =>
      match s.ongoing[i]? with
      | some { io, req, toLog := [], .. } =>
          let r := s.server.locked rt io req
          { server := r.2, ongoing := s.ongoing.eraseIdx i, done := s.done ++ [(.request io req, r.1)] }
      | _ => s
  | .read answer => { s with done := s.done ++ [(.read answer, answer s.server.store)] }

end Parallel

/-- Serve one by one, and keep the answers. -/
def serveOneByOne (rt : Runtime) (srv : Server) : List Served → List Response × Server
  | [] => ([], srv)
  | served :: rest =>
      let r := served.serve rt srv
      let last := serveOneByOne rt r.2 rest
      (r.1 :: last.1, last.2)

theorem serveOneByOne_append (rt : Runtime) (last : Served) (served : List Served) : ∀ srv : Server,
    serveOneByOne rt srv (served ++ [last])
      = ((serveOneByOne rt srv served).1 ++ [(last.serve rt (serveOneByOne rt srv served).2).1],
        (last.serve rt (serveOneByOne rt srv served).2).2) := by
  induction served with
  | nil => exact fun _ => rfl
  | cons first rest ih =>
      intro srv
      rw [List.cons_append, serveOneByOne, ih]
      rfl

namespace Parallel

variable {rt : Runtime} {start : Server}

/-- The server that served one by one what was served, and its answers. -/
def oneByOne (rt : Runtime) (start : Server) (s : Parallel) : List Response × Server :=
  serveOneByOne rt start (s.done.map Prod.fst)

/-- Answers and store are those of the server that served one by one, and the log has its entries and those
that were appended ahead. -/
structure Serial (rt : Runtime) (start : Server) (s : Parallel) : Prop where
  answers : (s.oneByOne rt start).1 = s.done.map Prod.snd
  twins : Server.Twins (s.oneByOne rt start).2 s.server
  log : s.server.wal.Perm ((s.oneByOne rt start).2.wal ++ s.ongoing.flatMap Ongoing.logged)
  runtime : s.server.runtime = start.runtime
  upfront : ∀ o ∈ s.ongoing, o.logged ++ o.toLog = start.upfront rt o.io o.req

theorem flatMap_eraseIdx {ongoing : List Ongoing} {i : Nat} {o : Ongoing} (hi : ongoing[i]? = some o) :
    (ongoing.flatMap Ongoing.logged).Perm (o.logged ++ (ongoing.eraseIdx i).flatMap Ongoing.logged) := by
  obtain ⟨hlt, rfl⟩ := List.getElem?_eq_some_iff.mp hi
  exact ((List.getElem_cons_eraseIdx_perm hlt).symm.flatMap_right Ongoing.logged)

/-- The step lemma for a handler that gets the lock: it is the next that is served. -/
theorem Serial.lock {s : Parallel} (h : s.Serial rt start) {i : Nat} {o : Ongoing}
    (hi : s.ongoing[i]? = some o) (htoLog : o.toLog = []) :
    Serial rt start { server := (s.server.locked rt o.io o.req).2, ongoing := s.ongoing.eraseIdx i,
                      done := s.done ++ [(.request o.io o.req, (s.server.locked rt o.io o.req).1)] } := by
  have hone : ∀ server ongoing answer, oneByOne rt start
      { server, ongoing, done := s.done ++ [(Served.request o.io o.req, answer)] }
        = ((s.oneByOne rt start).1 ++ [((s.oneByOne rt start).2.handle rt o.io o.req).1],
          ((s.oneByOne rt start).2.handle rt o.io o.req).2) := by
    intro server ongoing answer
    rw [oneByOne, List.map_append, List.map_singleton, serveOneByOne_append]
    rfl
  obtain ⟨hanswer, hafter⟩ := Server.handle_twins rt h.twins o.io o.req
  obtain ⟨hsame, hlocked⟩ := Server.locked_twins rt s.server o.io o.req
  have hlogged : o.logged = s.server.upfront rt o.io o.req := by
    rw [Server.upfront_congr h.runtime, ← h.upfront o (List.mem_of_getElem? hi), htoLog, List.append_nil]
  have hlog := h.log.trans ((flatMap_eraseIdx hi).append_left _)
  have hentries : ((s.oneByOne rt start).2.handle rt o.io o.req).2.wal = (s.oneByOne rt start).2.wal
      ++ (s.server.effects rt o.io o.req).filterMap Effect.logged := by
    rw [Server.handle_wal, Server.effects_twins h.twins]
  refine ⟨?_, ?_, ?_, ?_, fun o' ho' => h.upfront o' (List.mem_of_mem_eraseIdx ho')⟩
  · rw [hone, h.answers, hanswer, hsame, List.map_append]
    rfl
  · rw [hone]
    exact hafter.trans hlocked
  · rw [hone, hentries]
    unfold Server.locked
    by_cases hlock : o.req.logsUnderLock = true
    · -- its entries come last in both logs, and the others are where they were
      rw [hlogged, Server.upfront_of_lock hlock, List.nil_append] at hlog
      simp only [hlock, if_true]
      rw [Server.handle_wal]
      refine (hlog.append_right _).trans ?_
      rw [List.append_assoc, List.append_assoc]
      exact List.perm_append_comm.append_left _
    · rw [hlogged, Server.upfront_of_not_lock hlock] at hlog
      simp only [if_neg hlock]
      rw [List.append_assoc]
      exact hlog
  · rw [← hlocked.runtime, Server.handle_runtime, h.runtime]

theorem Serial.step {s : Parallel} (h : s.Serial rt start) (a : Action) : (s.step rt a).Serial rt start := by
  cases a with
  | start io req =>
      refine ⟨h.answers, h.twins, ?_, h.runtime, ?_⟩
      · simp only [Parallel.step, List.flatMap_append, List.flatMap_singleton, List.append_nil]
        exact h.log
      · intro o ho
        rcases List.mem_append.mp ho with ho | ho
        · exact h.upfront o ho
        · rw [List.mem_singleton.mp ho]
          exact Server.upfront_congr h.runtime io req
  | read answer =>
      have hserved : (oneByOne rt start (s.step rt (.read answer)))
          = ((s.oneByOne rt start).1 ++ [answer (s.oneByOne rt start).2.store], (s.oneByOne rt start).2) := by
        rw [oneByOne, Parallel.step, List.map_append, List.map_singleton, serveOneByOne_append]
        rfl
      refine ⟨?_, ?_, ?_, h.runtime, h.upfront⟩
      · rw [hserved, h.answers, h.twins.store]
        simp [Parallel.step]
      · rw [hserved]
        exact h.twins
      · rw [hserved]
        exact h.log
  | append i =>
      simp only [Parallel.step]
      split
      · next io req logged entry toLog hi =>
          have hset : (s.ongoing.set i { io, req, logged := logged ++ [entry], toLog })[i]?
              = some { io, req, logged := logged ++ [entry], toLog } := by
            rw [List.getElem?_set_self (List.getElem?_eq_some_iff.mp hi).1]
          refine ⟨h.answers, ⟨h.twins.store, h.twins.published, h.twins.runtime⟩, ?_, h.runtime, ?_⟩
          · have hbefore := h.log.trans ((flatMap_eraseIdx hi).append_left _)
            have hafter := flatMap_eraseIdx hset
            rw [List.eraseIdx_set_eq] at hafter
            refine (hbefore.append_right [entry]).trans (List.Perm.trans ?_ (hafter.append_left _).symm)
            simp only [List.append_assoc]
            exact (List.perm_append_comm.append_left _).append_left _
          · intro o ho
            rcases List.mem_or_eq_of_mem_set ho with ho | rfl
            · exact h.upfront o ho
            · rw [List.append_assoc]
              exact h.upfront _ (List.mem_of_getElem? hi)
      · exact h
  | lock i =>
      simp only [Parallel.step]
      split
      · next io req logged hi => exact h.lock hi rfl
      · exact h

end Parallel

/-- The handlers run in parallel, in whatever order they take their steps: the clients get the answers, and
the server ends with the store and the published messages, of a server that served the same requests and
reads one by one in the order in which they got the lock. Its log has the entries of that server and of the
handlers that wait for the lock, each as often. -/
theorem as_if_one_by_one (rt : Runtime) (start : Server) (actions : List Parallel.Action) :
    let s := actions.foldl (Parallel.step rt) { server := start }
    let one := serveOneByOne rt start (s.done.map Prod.fst)
    one.1 = s.done.map Prod.snd ∧ one.2.store = s.server.store ∧ one.2.published = s.server.published ∧
      s.server.wal.Perm (one.2.wal ++ s.ongoing.flatMap Ongoing.logged) := by
  intro s one
  have hserial : Parallel.Serial rt start s := by
    refine Lib.Run.foldl_of_step (Parallel.Serial rt start) (fun _ a hs => hs.step a) ?_ actions
    exact ⟨rfl, .refl start, by simp [Parallel.oneByOne, serveOneByOne], rfl,
      fun o ho => absurd ho (by simp)⟩
  exact ⟨hserial.answers, hserial.twins.store, hserial.twins.published, hserial.log⟩

end Daikon
