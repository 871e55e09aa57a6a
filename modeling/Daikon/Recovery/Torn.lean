/-
# Daikon.Recovery.Torn -- crashes, down to the bytes of the log

A server with the file of its log, and beside it the server that never crashes. A crash takes everything but
the file; the next start reads its lines and replays them on an empty store. Between requests nobody sees
that (`crashes_unseen`). A crash that cuts an append short leaves its request done or not done, and which of
the two is told by the bytes that got there (`in_flight_all_or_nothing`).

The bytes are those of `Daikon.Wal.Torn`: an entry is a line, a line ends in a newline, and a line that
decodes to nothing is skipped. A request is `Durable` where it is an acknowledged single command whose entry
can be written as a line and whose logged text is read back as JSON. The last is a condition and not a fact,
since a GETSET of a bare text is acknowledged and lost, crash or no crash.

`Intact` relates the two servers: the lines of the file are the log of the server without crashes, and the
two stores differ in their events at most. Between requests a crash keeps it because the replay of the file
is the store. An append that is cut short leaves `Intact` with a rest after the last line: the rest decodes
to nothing, or it is the whole line without its newline, and then the entry is read.
-/
import Daikon.Api.Local
import Daikon.Recovery.Crash
import Daikon.Recovery.OnDisk

namespace Daikon

open KvStore (SameOn)
open Lib (splitLines splitLines_append_of_notMem)
open Lib.Run (Always Guarded)

/-- A request, and how its entry is encrypted. -/
structure Sent where
  io : Io
  req : Request
  encrypted : Bool := false
  nonce : Option Nonce := none

/-- The entries that a server logs for it. -/
def Sent.entries (rt : Runtime) (srv : Server) (r : Sent) : List WalEntry :=
  (srv.effects rt r.io r.req).filterMap Effect.logged

/-- A server, the file of its log, and the server that never crashes. -/
structure Crashing where
  server : Server
  log : LogFile := {}
  ideal : Server

/-- A request to the server, or the end of the server and its next start. -/
inductive CrashAction where
  | request (r : Sent)
  /-- A crash between two requests, and the next start with the clocks of its replay. -/
  | crash (clock : Nat → Nat) (notify : Bool)

section

variable (rt : Runtime) (c : Codec) (cfg : StoreConfig)

namespace Crashing

/-- What happens to both servers, and to the file. -/
def step (s : Crashing) : CrashAction → Crashing
  | .request r =>
      { server := s.server.serve rt (r.io, r.req)
        log := (r.entries rt s.server).foldl (fun log e => log.append c ⟨r.encrypted, r.nonce, e⟩) s.log
        ideal := s.ideal.serve rt (r.io, r.req) }
  | .crash clock notify =>
      match startFrom rt c cfg clock s.log.file with
      -- a start that fails is no start
      | .error _ => s
      | .ok (entries, store) =>
          { s with server :=
              { store := store.setKeyspaceNotificationsEnabled notify
                wal := entries
                runtime := s.server.runtime } }

/-- The request is an acknowledged single command whose entry could be written, and whose bare texts decode
to themselves. -/
structure Durable (s : Crashing) (r : Sent) : Prop where
  single : r.req.SingleCommand
  acknowledged : s.server.Acknowledged rt (r.io, r.req)
  decodes : r.req.LoggedDecodes rt
  written : ∀ e ∈ r.entries rt s.server, (c.encodeLineAs r.encrypted r.nonce e).isOk

/-- What is asked of a step. -/
def DurableAction (s : Crashing) : CrashAction → Prop
  | .request r => s.Durable rt c r
  | .crash _ _ => True

/-- The invariant: the log is whole, its replay is the store, and the server that never crashed has both. -/
structure Intact (s : Crashing) : Prop where
  exact : s.log.Exact c
  logged : s.log.acknowledged = s.server.wal
  replays : ∀ clock, Server.InStep rt cfg clock s.server
  store : s.server.store.quiet = s.ideal.store.quiet
  wal : s.server.wal = s.ideal.wal
  runtime : s.server.runtime = s.ideal.runtime

end Crashing

end

variable {rt : Runtime} {c : Codec} {cfg : StoreConfig}

/-! ## Requests -/

/-- Servers with the same store, but for events, log the same and make the same calls for a single command. -/
theorem Request.SingleCommand.effects_eq {srv srv' : Server} (hstore : srv.store.quiet = srv'.store.quiet)
    (hruntime : srv.runtime = srv'.runtime) (io : Io) {req : Request} (h : req.SingleCommand) :
    srv.effects rt io req = srv'.effects rt io req := by
  unfold Server.effects
  rw [hruntime]
  cases requireApiKey io.headers srv'.runtime with
  | some refusal => rfl
  | none =>
      cases req with
      | hashHincrbyfloat key field amount =>
          have hentries := congrArg KvStore.store hstore
          simp only [KvStore.quiet_store] at hentries
          have hsame : SameOn Set.univ srv.store srv'.store := by
            refine ⟨fun k _ => by rw [hentries], ?_, ?_⟩
            · exact congrArg (fun s => s.config.maxKeySize) hstore
            · exact congrArg (fun s => s.config.maxValueSize) hstore
          have hanswer : (srv.store.hincrbyfloat rt key field amount).1
              = (srv'.store.hincrbyfloat rt key field amount).1 :=
            (KvStore.addToField_local hsame (Set.mem_univ key) rt.f64Parse 0.0 (· + ·) rt.f64ToString field
              amount).1
          simp only [Server.dispatchEffects, hanswer]
      | setExpire _ _ | persistKey _ | pipelineExec _ | luaExec _ | cleanupExpired | multi | exec | discard
      | hllPfadd _ _ | hllPfreserve _ _ | hllPfmerge _ _ | setKeyspaceConfig _ | pitrRecoverToTimestamp _ _
      | pitrRecoverLatestSnapshot _ => exact h.elim
      | _ => rfl

namespace Crashing

/-- The one entry of a durable request, and its line. -/
theorem Durable.entry (hserde : rt.StrRoundTrip) {s : Crashing} {r : Sent} (h : s.Durable rt c r) :
    ∃ op w, s.server.effects rt r.io r.req
        = [⟨some (WalEntry.new (r.io.loggedAt 0) op), some (r.io.now 0, w)⟩] ∧
      r.entries rt s.server = [WalEntry.new (r.io.loggedAt 0) op] ∧
      ∃ line, c.encodeLineAs r.encrypted r.nonce (WalEntry.new (r.io.loggedAt 0) op) = .ok line := by
  obtain ⟨op, w, heffects, -⟩ := Server.single_effects hserde h.single h.acknowledged h.decodes
  have hentries : r.entries rt s.server = [WalEntry.new (r.io.loggedAt 0) op] := by
    rw [Sent.entries, heffects]
    rfl
  have hwritten := h.written (WalEntry.new (r.io.loggedAt 0) op) (by simp [hentries])
  refine ⟨op, w, heffects, hentries, ?_⟩
  cases hline : c.encodeLineAs r.encrypted r.nonce (WalEntry.new (r.io.loggedAt 0) op) with
  | error e =>
      rw [hline] at hwritten
      cases hwritten
  | ok line => exact ⟨line, rfl⟩

theorem Intact.request (hserde : rt.StrRoundTrip) (hc : c.Lawful) {s : Crashing} (h : s.Intact rt c cfg)
    {r : Sent} (hr : s.Durable rt c r) : (s.step rt c cfg (.request r)).Intact rt c cfg := by
  obtain ⟨op, w, heffects, hentries, line, hline⟩ := hr.entry hserde
  have hlive := Server.handle_performs rt s.server r.io hr.single.isWrite
  have hideal := Server.handle_performs rt s.ideal r.io hr.single.isWrite
  rw [heffects] at hlive
  rw [← hr.single.effects_eq h.store h.runtime r.io, heffects] at hideal
  have hlog : ((r.entries rt s.server).foldl (fun log e => log.append c ⟨r.encrypted, r.nonce, e⟩) s.log)
      = s.log.append c ⟨r.encrypted, r.nonce, WalEntry.new (r.io.loggedAt 0) op⟩ := by
    rw [hentries]
    rfl
  refine ⟨?_, ?_, ?_, ?_, ?_, ?_⟩
  · simp only [step, hlog]
    exact h.exact.append hc _
  · simp only [step, hlog]
    rw [LogFile.append, hline, show (s.server.serve rt (r.io, r.req)).wal = _ from hlive.wal, h.logged]
    rfl
  · exact fun clock => Server.inStep_serve hserde (h.replays clock) hr.single hr.acknowledged hr.decodes
  · have hcall := (KvStore.write_alike rt h.store (r.io.now 0) w).2
    exact hlive.store.quiet.trans (hcall.trans hideal.store.quiet.symm)
  · exact hlive.wal.trans ((congrArg (· ++ _) h.wal).trans hideal.wal.symm)
  · exact (Server.handle_runtime rt s.server r.io r.req).trans
      (h.runtime.trans (Server.handle_runtime rt s.ideal r.io r.req).symm)

/-! ## Crashes -/

/-- A start from the whole log gives the store of the server that never crashed, but for events. -/
theorem Intact.start {s : Crashing} (h : s.Intact rt c cfg) (clock : Nat → Nat) :
    ∃ store, startFrom rt c cfg clock s.log.file = .ok (s.ideal.wal, store) ∧
      store.quiet = s.ideal.store.quiet := by
  obtain ⟨store, hreplay, hquiet⟩ := h.replays clock
  refine ⟨store, ?_, hquiet.trans h.store⟩
  rw [h.wal] at hreplay
  rw [startFrom, h.exact.readAll, h.logged, h.wal]
  simp only [hreplay, Except.map]

theorem Intact.crash {s : Crashing} (h : s.Intact rt c cfg) (clock : Nat → Nat) (notify : Bool) :
    (s.step rt c cfg (.crash clock notify)).Intact rt c cfg := by
  obtain ⟨store, hstart, hquiet⟩ := h.start clock
  simp only [step, hstart]
  refine ⟨h.exact, h.logged.trans h.wal, fun clock' => ?_, hquiet, rfl, h.runtime⟩
  obtain ⟨replayed, hreplay, hreplayed⟩ := h.replays clock'
  refine ⟨replayed, ?_, hreplayed.trans (h.store.trans hquiet.symm)⟩
  rw [h.wal] at hreplay
  exact hreplay

theorem Intact.step (hserde : rt.StrRoundTrip) (hc : c.Lawful) {s : Crashing} (h : s.Intact rt c cfg)
    {a : CrashAction} (ha : s.DurableAction rt c a) : (s.step rt c cfg a).Intact rt c cfg := by
  cases a with
  | request r => exact h.request hserde hc ha
  | crash clock notify => exact h.crash clock notify

theorem intact_fresh (runtime : Option ApiRuntimeConfig) (notify : Bool) :
    Intact rt c cfg { server := .fresh cfg runtime notify, ideal := .fresh cfg runtime notify } where
  exact := ⟨Codec.ReadsTo.nil c, rfl⟩
  logged := rfl
  replays _ := ⟨_, rfl, rfl⟩
  store := rfl
  wal := rfl
  runtime := rfl

theorem values_eq_of_quiet {s t : KvStore} (h : s.quiet = t.quiet) : s.values = t.values := by
  rw [← KvStore.quiet_values s, h, KvStore.quiet_values]

end Crashing

open Crashing

/-- In every run of acknowledged single commands and of crashes between them, with encryption switched on
and off: the server has the values of the one that never crashed, and the file has its log. -/
theorem crashes_unseen (rt : Runtime) (hserde : rt.StrRoundTrip) (c : Codec) (hc : c.Lawful)
    (cfg : StoreConfig) (runtime : Option ApiRuntimeConfig) (notify : Bool) (actions : List CrashAction)
    (hrun : Guarded (step rt c cfg) (DurableAction rt c)
      { server := .fresh cfg runtime notify, ideal := .fresh cfg runtime notify } actions) :
    Always (step rt c cfg)
      (fun s => s.server.store.values = s.ideal.store.values ∧ c.readAll s.log.file = .ok s.ideal.wal)
      { server := .fresh cfg runtime notify, ideal := .fresh cfg runtime notify } actions := by
  refine (hrun.always (fun s a hs ha => hs.step hserde hc ha) (intact_fresh runtime notify)).mono fun s h => ?_
  refine ⟨values_eq_of_quiet h.store, ?_⟩
  rw [h.exact.readAll, h.logged, h.wal]

/-- The text of one push at time zero. -/
def pushText : String :=
  "\x7b\"timestamp\":0,\"operation\":\x7b\"op\":\"LPUSH\",\"key\":\"l\",\"values\":[\"x\"]\x7d\x7d"

/-- A codec for it. -/
def Codec.pushes : Codec := .plain [(⟨0, .lPush "l" ["x"]⟩, pushText)]

theorem Codec.pushes_lawful : Codec.pushes.Lawful := by
  refine plain_lawful fun p hp => ?_
  obtain rfl := List.mem_singleton.mp hp
  exact ⟨⟨"\"timestamp\":0,\"operation\":\x7b\"op\":\"LPUSH\",\"key\":\"l\",\"values\":[\"x\"]\x7d",
    by decide +kernel⟩, by decide +kernel, by decide +kernel⟩

/-- The push, sent at time zero. -/
def pushSent : Sent := { io := .healthy 0, req := .listLpush "l" ["x"] }

/-- A push, a crash, and another push. -/
theorem crashes_unseen_pushes :
    Always (step .strings .pushes {})
      (fun s => s.server.store.values = s.ideal.store.values ∧
        Codec.pushes.readAll s.log.file = .ok s.ideal.wal)
      { server := .fresh {} none false, ideal := .fresh {} none false }
      [.request pushSent, .crash (fun _ => 0) false, .request pushSent] := by
  refine crashes_unseen .strings Runtime.strings_strRoundTrip .pushes Codec.pushes_lawful {} none false _
    ⟨⟨trivial, ?_, trivial, ?_⟩, trivial, ⟨trivial, ?_, trivial, ?_⟩, trivial⟩
  · show _ = _
    decide +kernel
  · decide +kernel
  · show _ = _
    decide +kernel
  · decide +kernel

/-! ## An append that is cut short -/

/-- A part of a line that is read and gives no entry. -/
def Codec.Unread (c : Codec) (part : Bytes) : Prop :=
  ∃ text, fromUtf8 part = some text ∧
    (isBlank text = true ∨ ∃ data, c.crypto.decrypt part = .ok data ∧ c.fromSlice data = none)

theorem Codec.Unread.readsTo {part : Bytes} (h : c.Unread part) : c.ReadsTo [part] [] := by
  obtain ⟨text, htext, hread⟩ := h
  intro lineNo
  rw [readLines, readLine, htext]
  by_cases hblank : isBlank text = true
  · simp [hblank, readLines]
  · obtain ⟨data, hdata, hnone⟩ := hread.resolve_left hblank
    simp [hblank, hdata, hnone, readLines]

/-- Behind the last newline there may be a part of a line. -/
theorem LogFile.Exact.readAll_part {log : LogFile} (h : log.Exact c) {part : Bytes} (hpart : newline ∉ part)
    {entries : List WalEntry} (hread : if part = [] then entries = [] else c.ReadsTo [part] entries) :
    c.readAll (log.file ++ part) = .ok (log.acknowledged ++ entries) := by
  have hsplit : splitLines newline (log.file ++ part) = ((splitLines newline log.file).1, part) := by
    rw [splitLines_append_of_notMem _ hpart, h.rest, List.nil_append]
  rw [Codec.readAll, linesOf, hsplit]
  by_cases hnil : part = []
  · rw [if_pos hnil] at hread
    rw [if_pos hnil, hread]
    simpa using h.lines 0
  · rw [if_neg hnil] at hread
    rw [if_neg hnil]
    exact h.lines.append hread 0

/-- What is read of a line of which so many bytes, its newline among them, reached the file. -/
theorem LogFile.Exact.readAll_cut (hc : c.Lawful) {log : LogFile} (h : log.Exact c) {a : SwitchedAppend}
    {line : Bytes} (hline : c.encodeLineAs a.encrypted a.nonce a.entry = .ok line) {n : Nat}
    (htorn : n = 0 ∨ line.length ≤ n ∨ c.Unread (line.take n)) :
    c.readAll (log.file ++ (line ++ [newline]).take n)
      = .ok (log.acknowledged ++ if line.length ≤ n then [a.entry] else []) := by
  have hreads := Codec.encodeLineAs_reads hc hline
  rcases Nat.lt_trichotomy line.length n with hlong | rfl | hshort
  · -- the newline got there, too
    have hwhole := (h.append hc a).readAll
    rw [LogFile.append, hline] at hwhole
    rw [List.take_of_length_le (by rw [List.length_append]; exact hlong), if_pos hlong.le, ← List.append_assoc]
    exact hwhole
  · rw [List.take_append_of_le_length le_rfl, List.take_length, if_pos le_rfl]
    refine h.readAll_part hreads.oneLine ?_
    rw [if_neg hreads.nonempty]
    exact hreads.readsTo
  · rw [List.take_append_of_le_length hshort.le, if_neg (Nat.not_le.mpr hshort)]
    refine h.readAll_part (fun hmem => hreads.oneLine (List.mem_of_mem_take hmem)) ?_
    split
    · rfl
    · next hpart =>
        rcases htorn with rfl | hall | hunread
        · exact absurd rfl hpart
        · exact absurd hall (Nat.not_le.mpr hshort)
        · exact hunread.readsTo

/-- After every such run, a crash while the entry of one more request is appended: if what is left of its line
gives no entry, the next start has the values without the request, and if the line is all there, with or
without its newline, it has the values with it. -/
theorem in_flight_all_or_nothing (rt : Runtime) (hserde : rt.StrRoundTrip) (c : Codec) (hc : c.Lawful)
    (cfg : StoreConfig) (runtime : Option ApiRuntimeConfig) (notify : Bool) (actions : List CrashAction)
    (hrun : Guarded (step rt c cfg) (DurableAction rt c)
      { server := .fresh cfg runtime notify, ideal := .fresh cfg runtime notify } actions)
    (s : Crashing) (hs : s = actions.foldl (step rt c cfg)
      { server := .fresh cfg runtime notify, ideal := .fresh cfg runtime notify })
    (r : Sent) (hr : s.Durable rt c r) (line : Bytes)
    (hline : ∀ e ∈ r.entries rt s.server, c.encodeLineAs r.encrypted r.nonce e = .ok line)
    (n : Nat) (htorn : n = 0 ∨ line.length ≤ n ∨ c.Unread (line.take n)) (clock : Nat → Nat) :
    ∃ entries store,
      startFrom rt c cfg clock (s.log.file ++ (line ++ [newline]).take n) = .ok (entries, store) ∧
      store.values = if line.length ≤ n then (s.ideal.serve rt (r.io, r.req)).store.values
        else s.ideal.store.values := by
  have hintact : s.Intact rt c cfg := by
    rw [hs]
    exact hrun.foldl (fun s a hs ha => hs.step hserde hc ha) (intact_fresh runtime notify)
  obtain ⟨op, w, -, hentries, -⟩ := hr.entry hserde
  have hread := hintact.exact.readAll_cut hc
    (a := ⟨r.encrypted, r.nonce, WalEntry.new (r.io.loggedAt 0) op⟩) (hline _ (by simp [hentries])) htorn
  rw [hintact.logged] at hread
  by_cases hall : line.length ≤ n
  · -- the log of the server that goes on
    have hnext := hintact.request hserde hc hr
    have hwal : (s.server.serve rt (r.io, r.req)).wal
        = s.server.wal ++ [WalEntry.new (r.io.loggedAt 0) op] := by
      rw [show (s.server.serve rt (r.io, r.req)).wal = _ from
        Server.handle_wal rt s.server r.io r.req, ← hentries, Sent.entries]
    obtain ⟨store, hreplay, hquiet⟩ := hnext.replays clock
    simp only [step, hwal] at hreplay hquiet
    rw [if_pos hall] at hread ⊢
    refine ⟨s.server.wal ++ [WalEntry.new (r.io.loggedAt 0) op], store, ?_, ?_⟩
    · rw [startFrom, hread]
      simp only [hreplay, Except.map]
    · exact values_eq_of_quiet (hquiet.trans hnext.store)
  · obtain ⟨store, hreplay, hquiet⟩ := hintact.replays clock
    rw [if_neg hall, List.append_nil] at hread
    rw [if_neg hall]
    refine ⟨s.server.wal, store, ?_, ?_⟩
    · rw [startFrom, hread]
      simp only [hreplay, Except.map]
    · exact values_eq_of_quiet (hquiet.trans hintact.store)

/-- One push, and another of which the first byte reached the file. -/
theorem in_flight_all_or_nothing_first_byte :
    let s := [CrashAction.request pushSent].foldl (step .strings .pushes {})
      { server := .fresh {} none false, ideal := .fresh {} none false }
    ∃ entries store, startFrom .strings .pushes {} (fun _ => 0)
        (s.log.file ++ (utf8 pushText ++ [newline]).take 1) = .ok (entries, store) ∧
      store.values = s.ideal.store.values := by
  obtain ⟨entries, store, hstart, hvalues⟩ := in_flight_all_or_nothing .strings Runtime.strings_strRoundTrip
    .pushes Codec.pushes_lawful {} none false [.request pushSent]
    ⟨⟨trivial, show _ = _ by decide +kernel, trivial, by decide +kernel⟩, trivial⟩ _ rfl pushSent
    ⟨trivial, show _ = _ by decide +kernel, trivial, by decide +kernel⟩ (utf8 pushText) (by decide +kernel) 1
    (.inr (.inr ⟨"\x7b", by decide +kernel, .inr ⟨utf8 "\x7b", by decide +kernel, by decide +kernel⟩⟩))
    fun _ => 0
  exact ⟨entries, store, hstart, hvalues.trans (if_neg (by decide +kernel))⟩

end Daikon
