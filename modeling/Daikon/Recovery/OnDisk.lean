/-
# Daikon.Recovery.OnDisk -- the server and the bytes of its log

The server keeps its log as a list of entries, and an append that fails leaves that list as it was. What
`Wal::append` has to do with is a file: it opens it, encodes the entry and makes two writes, of the line and
of the newline, so an append that fails may leave any first part of the line, or all of it, behind. Here the
two are put side by side. A request runs in an environment that says of every append whether its writes
fail, and how many bytes are in the file by then (`DiskIo`); the server sees only whether the append failed,
and the file gets the bytes (`OnDisk.serve`).

What ties them is a condition on the environment: an append that fails has written nothing (`FailsClean`;
the file could not be opened, the entry could not be encoded, or the disk refused the first byte). In every
run of requests of any kind in such an environment the file is read back to exactly the list that the server
keeps (`readAll_run`). So whatever the results of this development say of the list, they say of the file
under that condition, and those that are about the file itself, whether a start goes through and what it
finds, are stated so. What a torn append does to the lines behind it is the subject of `Daikon.Wal.Torn`,
what two appends at once do that of `Daikon.Wal.Interleaved`.

`operations` lists what a request tries to log, in the order of its appends; `effects_entries` connects it
to the effects of the request, of which only the appends that succeed are left.
-/
import Daikon.Api.Effects
import Daikon.Lib.Run
import Daikon.Wal.AtRest

namespace Daikon

open Lib.Run (Guarded)

/-! ## What a batch logs -/

/-- The entry of an operation logged as the n-th, if there is one and its append succeeds. -/
def Io.entry (io : Io) (n : Nat) (op : Option WalOperation) : List WalEntry :=
  match op, io.disk n with
  | some op, none => [WalEntry.new (io.loggedAt n) op]
  | _, _ => []

/-- The entries of operations logged in turn. -/
def Io.entries (io : Io) : Nat → List (Option WalOperation) → List WalEntry
  | _, [] => []
  | n, op :: ops => io.entry n op ++ io.entries (n + 1) ops

theorem Io.mem_entry {io : Io} {n : Nat} {op : Option WalOperation} {entry : WalEntry} :
    entry ∈ io.entry n op ↔
      ∃ o, op = some o ∧ io.disk n = none ∧ entry = WalEntry.new (io.loggedAt n) o := by
  unfold Io.entry
  cases op <;> cases io.disk n <;> simp

theorem Io.mem_entries {io : Io} {entry : WalEntry} (ops : List (Option WalOperation)) :
    ∀ n : Nat, entry ∈ io.entries n ops ↔ ∃ i op, ops[i]? = some (some op) ∧
      io.disk (n + i) = none ∧ entry = WalEntry.new (io.loggedAt (n + i)) op := by
  induction ops with
  | nil => intro n; simp [Io.entries]
  | cons op ops ih =>
      intro n
      rw [Io.entries, List.mem_append, Io.mem_entry, ih]
      constructor
      · rintro (⟨o, rfl, hdisk, hentry⟩ | ⟨i, o, hi, hdisk, hentry⟩)
        · exact ⟨0, o, rfl, hdisk, hentry⟩
        · refine ⟨i + 1, o, hi, ?_⟩
          rw [show n + (i + 1) = n + 1 + i by omega]
          exact ⟨hdisk, hentry⟩
      · rintro ⟨i, o, hi, hdisk, hentry⟩
        cases i with
        | zero => exact .inl ⟨o, by simpa using hi, hdisk, hentry⟩
        | succ i =>
            refine .inr ⟨i, o, hi, ?_⟩
            rw [show n + 1 + i = n + (i + 1) by omega]
            exact ⟨hdisk, hentry⟩

theorem effect_entry (io : Io) (n : Nat) (op : WalOperation) (w : Write) :
    (io.effect n op w).filterMap Effect.logged = io.entry n (some op) := by
  unfold Io.effect Io.entry
  cases io.disk n <;> rfl

theorem effect_entries (io : Io) (op : WalOperation) (w : Write) :
    (io.effect 0 op w).filterMap Effect.logged = io.entries 0 [some op] := by
  rw [effect_entry, Io.entries, Io.entries, List.append_nil]

theorem pipeline_entries (io : Io) (cmds : List PipelineCommand) :
    ∀ n : Nat, (pipelineEffects io n cmds).filterMap Effect.logged
      = io.entries n (cmds.map PipelineCommand.logged) := by
  induction cmds with
  | nil => intro n; rfl
  | cons cmd cmds ih =>
      intro n
      rw [pipelineEffects, List.filterMap_append, ih, List.map_cons, Io.entries]
      cases cmd.logged with
      | none => rfl
      | some op => rw [← effect_entry io n op op.raw]

theorem lua_entries (rt : Runtime) (io : Io) (calls : List LuaCall) :
    ∀ n : Nat, (luaEffects rt io n calls).filterMap Effect.logged
      = io.entries n (calls.map (LuaCall.logged rt)) := by
  induction calls with
  | nil => intro n; rfl
  | cons call calls ih =>
      intro n
      rw [luaEffects, List.filterMap_append, ih, List.map_cons, Io.entries]
      cases call.logged rt with
      | none => rfl
      | some op => rw [← effect_entry io n op call.write]

namespace Server

/-- What a request tries to log, one place for each append: a command that only reads and a binding that logs
nothing have a place of their own and no operation. -/
def operations (rt : Runtime) (srv : Server) (headers : Headers) (req : Request) :
    List (Option WalOperation) :=
  match requireApiKey headers srv.runtime with
  | some _ => []
  | none =>
      match req with
      | .pipelineExec commands => if pipelineAdmitted commands then commands.map PipelineCommand.logged else []
      | .luaExec script => if srv.luaAdmitted script then script.calls.map (LuaCall.logged rt) else []
      | .hashHincrbyfloat key field amount =>
          -- the call comes first, and its result is what is logged
          match (srv.store.hincrbyfloat rt key field amount).1 with
          | .ok value => [some (.hSet key ((∅ : Fields).insert field (rt.f64ToString value)))]
          | .error _ => []
      | req => (req.loggedWrite rt).toList.map fun p => some p.1

/-- Of these the log gets the ones whose append succeeds. -/
theorem effects_entries (rt : Runtime) (srv : Server) (io : Io) (req : Request) :
    (srv.effects rt io req).filterMap Effect.logged
      = io.entries 0 (srv.operations rt io.headers req) := by
  unfold effects operations
  cases requireApiKey io.headers srv.runtime with
  | some refusal => rfl
  | none =>
      cases req with
      | pipelineExec commands =>
          simp only [dispatchEffects]
          split
          · exact pipeline_entries io commands 0
          · rfl
      | luaExec script =>
          simp only [dispatchEffects]
          split
          · exact lua_entries rt io script.calls 0
          · rfl
      | hashHincrbyfloat key field amount =>
          simp only [dispatchEffects]
          cases (srv.store.hincrbyfloat rt key field amount).1 with
          | error e => rfl
          | ok value => cases hdisk : io.disk 0 <;> simp [Io.entries, Io.entry, hdisk]
      | _ =>
          simp only [dispatchEffects]
          cases Request.loggedWrite rt _ with
          | none => rfl
          | some p => exact effect_entries io p.1 p.2

theorem serve_wal (rt : Runtime) (srv : Server) (io : Io) (req : Request) :
    (srv.serve rt (io, req)).wal = srv.wal ++ io.entries 0 (srv.operations rt io.headers req) := by
  rw [← effects_entries]
  exact handle_wal rt srv io req

end Server

/-! ## The environment, down to the bytes -/

/-- An environment that also decides what the appends leave in the file. Of the `disk` of the environment the
errors are here those of opening and writing the file; an entry may fail to be encoded as well. -/
structure DiskIo extends Io where
  /-- The random bytes for the n-th entry, if the random source gives them. -/
  nonce : Nat → Option Nonce := fun _ => none
  /-- How many bytes of its line and newline the n-th append leaves in the file where it fails. -/
  left : Nat → Nat := fun _ => 0

namespace DiskIo

/-- The n-th append of the request, as the file takes it. -/
def appendOf (io : DiskIo) (n : Nat) (op : WalOperation) : Append where
  nonce := io.nonce n
  entry := WalEntry.new (io.loggedAt n) op
  cut := if (io.disk n).isSome then some (io.left n) else none

/-- The error of the n-th append, if it fails. -/
def error (c : Codec) (io : DiskIo) (n : Nat) (op : WalOperation) : Option KvStoreError :=
  match io.disk n, c.encodeLine (io.nonce n) (WalEntry.new (io.loggedAt n) op) with
  | some e, _ => some e
  | none, .error e => some e
  | none, .ok _ => none

/-- What a request with these appends sees of the environment. -/
def seen (c : Codec) (io : DiskIo) (ops : List (Option WalOperation)) : Io :=
  { io.toIo with disk := fun n => (ops[n]?.join).elim (io.disk n) (io.error c n) }

/-- An append that fails has written nothing. -/
def FailsClean (io : DiskIo) : Prop := ∀ n, (io.disk n).isSome → io.left n = 0

/-- Nothing fails, and there is nothing to be encrypted. -/
def healthy (now : Nat) : DiskIo := { Io.healthy now with }

theorem healthy_failsClean (now : Nat) : (healthy now).FailsClean := fun _ h => by cases h

/-- The appends of a request, one after the other. -/
def appendAll (c : Codec) (io : DiskIo) : Nat → List (Option WalOperation) → LogFile → LogFile
  | _, [], log => log
  | n, op :: ops, log =>
      appendAll c io (n + 1) ops (op.elim log fun op => log.step c (io.appendOf n op))

end DiskIo

/-- One append is acknowledged where the server sees no error. -/
theorem LogFile.step_acknowledged (c : Codec) (io : DiskIo) (n : Nat) (op : WalOperation) (log : LogFile) :
    (log.step c (io.appendOf n op)).acknowledged
      = log.acknowledged ++ if io.error c n op = none then [WalEntry.new (io.loggedAt n) op] else [] := by
  unfold LogFile.step DiskIo.appendOf DiskIo.error
  cases c.encodeLine (io.nonce n) (WalEntry.new (io.loggedAt n) op) <;> cases io.disk n <;> simp

/-- An append that is whole or has written nothing leaves whole lines. -/
theorem LogFile.Exact.step {c : Codec} (hc : c.Lawful) {log : LogFile} (h : log.Exact c) {a : Append}
    (hcut : a.cut = none ∨ a.cut = some 0) : (log.step c a).Exact c := by
  have happend := h.append hc ⟨true, a.nonce, a.entry⟩
  unfold LogFile.append Codec.encodeLineAs at happend
  unfold LogFile.step
  cases hline : c.encodeLine a.nonce a.entry with
  | error e => exact h
  | ok line =>
      rcases hcut with hcut | hcut
      · simp only [if_true, hline, List.append_assoc] at happend
        simpa only [hcut] using happend
      · simpa [hcut] using h

namespace DiskIo

/-- The file acknowledges what the server takes down. -/
theorem appendAll_acknowledged (c : Codec) (io : DiskIo) (io' : Io) (hlogged : io'.loggedAt = io.loggedAt)
    (ops : List (Option WalOperation)) : ∀ (n : Nat) (log : LogFile),
      (∀ i op, ops[i]? = some (some op) → io'.disk (n + i) = io.error c (n + i) op) →
      (io.appendAll c n ops log).acknowledged = log.acknowledged ++ io'.entries n ops := by
  induction ops with
  | nil => exact fun n log _ => (List.append_nil _).symm
  | cons op ops ih =>
      intro n log hseen
      rw [appendAll, ih (n + 1) _ fun i op hop => ?_, Io.entries, ← List.append_assoc]
      · congr 1
        cases op with
        | none => exact (List.append_nil _).symm
        | some op =>
            have hdisk : io'.disk n = io.error c n op := hseen 0 op rfl
            show (log.step c (io.appendOf n op)).acknowledged = _
            unfold Io.entry
            rw [LogFile.step_acknowledged, hdisk, hlogged]
            cases io.error c n op <;> simp
      · have hnext := hseen (i + 1) op hop
        rwa [← Nat.add_assoc, Nat.add_right_comm] at hnext

theorem appendAll_exact {c : Codec} (hc : c.Lawful) {io : DiskIo} (hclean : io.FailsClean)
    (ops : List (Option WalOperation)) : ∀ (n : Nat) {log : LogFile}, log.Exact c →
      (io.appendAll c n ops log).Exact c := by
  induction ops with
  | nil => exact fun _ _ h => h
  | cons op ops ih =>
      intro n log h
      refine ih (n + 1) ?_
      cases op with
      | none => exact h
      | some op =>
          refine h.step hc ?_
          unfold appendOf
          cases hdisk : io.disk n with
          | none => exact .inl rfl
          | some e => exact .inr (congrArg some (hclean n (by rw [hdisk]; rfl)))

end DiskIo

/-! ## The server and its file -/

/-- The server and the file of its log. -/
structure OnDisk where
  server : Server
  log : LogFile := {}

section

variable (rt : Runtime) (c : Codec)

/-- The store of a start that finds the log and no saved store. -/
def startFrom (cfg : StoreConfig) (clock : Nat → Nat) (file : Bytes) :
    Except String (List WalEntry × KvStore) :=
  match c.readAll file with
  | .error e => .error e.toString
  | .ok entries => (replayWal rt (stamped clock entries) (KvStore.withConfig cfg)).map (entries, ·)

namespace OnDisk

/-- A request as the server sees it. -/
def seen (s : OnDisk) (r : DiskIo × Request) : Io × Request :=
  (r.1.seen c (s.server.operations rt r.1.headers r.2), r.2)

/-- The server carries the request out, and its appends go to the file. -/
def serve (s : OnDisk) (r : DiskIo × Request) : OnDisk where
  server := s.server.serve rt (s.seen rt c r)
  log := r.1.appendAll c 0 (s.server.operations rt r.1.headers r.2) s.log

/-- A server just started, with an empty file. -/
def fresh (cfg : StoreConfig) (runtime : Option ApiRuntimeConfig) (notify : Bool) : OnDisk :=
  { server := .fresh cfg runtime notify }

/-- The invariant: the file has whole lines only, and they are read to the list that the server keeps. -/
structure Whole (s : OnDisk) : Prop where
  exact : s.log.Exact c
  logged : s.log.acknowledged = s.server.wal

end OnDisk

end

namespace OnDisk

variable {rt : Runtime} {c : Codec}

theorem Whole.serve (hc : c.Lawful) {s : OnDisk} (h : s.Whole c) {r : DiskIo × Request}
    (hclean : r.1.FailsClean) : (s.serve rt c r).Whole c where
  exact := DiskIo.appendAll_exact hc hclean _ 0 h.exact
  logged := by
    have hacknowledged := DiskIo.appendAll_acknowledged c r.1
      (r.1.seen c (s.server.operations rt r.1.headers r.2)) rfl
      (s.server.operations rt r.1.headers r.2) 0 s.log fun i op hop => by
        rw [Nat.zero_add]
        simp only [DiskIo.seen, hop, Option.join_some, Option.elim_some]
    rw [show (s.serve rt c r).log.acknowledged = _ from hacknowledged, h.logged]
    exact (Server.serve_wal rt s.server _ r.2).symm

theorem Whole.readAll {s : OnDisk} (h : s.Whole c) : c.readAll s.log.file = .ok s.server.wal := by
  rw [h.exact.readAll, h.logged]

theorem whole_of_empty {s : OnDisk} (hlog : s.log = {}) (hwal : s.server.wal = []) : s.Whole c where
  exact := by
    rw [hlog]
    exact ⟨Codec.ReadsTo.nil c, rfl⟩
  logged := by rw [hlog, hwal]

theorem whole_foldl (hc : c.Lawful) (reqs : List (DiskIo × Request)) : ∀ {s : OnDisk}, s.Whole c →
    (∀ r ∈ reqs, r.1.FailsClean) → (reqs.foldl (serve rt c) s).Whole c := by
  induction reqs with
  | nil => exact fun h _ => h
  | cons r reqs ih =>
      intro s h hclean
      exact ih (h.serve hc (hclean r List.mem_cons_self)) fun r' hr' =>
        hclean r' (List.mem_cons_of_mem _ hr')

/-- In every run of requests whose appends succeed or write nothing, the file is read back to the list of
entries that the server keeps. -/
theorem readAll_run (hc : c.Lawful) {s : OnDisk} (h : s.Whole c) (reqs : List (DiskIo × Request))
    (hclean : ∀ r ∈ reqs, r.1.FailsClean) :
    c.readAll (reqs.foldl (serve rt c) s).log.file = .ok (reqs.foldl (serve rt c) s).server.wal :=
  (whole_foldl hc reqs h hclean).readAll

/-- A run on disk is, for the server, a run in the environments that it sees. -/
theorem exists_run (rt : Runtime) (c : Codec) (reqs : List (DiskIo × Request)) : ∀ s : OnDisk,
    ∃ run : List (Io × Request),
      (reqs.foldl (serve rt c) s).server = run.foldl (Server.serve rt) s.server ∧
      ∀ Cond : Server → Io × Request → Prop,
        Guarded (serve rt c) (fun s r => Cond s.server (s.seen rt c r)) s reqs ↔
          Guarded (Server.serve rt) Cond s.server run := by
  induction reqs with
  | nil => exact fun s => ⟨[], rfl, fun _ => Iff.rfl⟩
  | cons r reqs ih =>
      intro s
      obtain ⟨run, hserver, hguarded⟩ := ih (s.serve rt c r)
      refine ⟨s.seen rt c r :: run, hserver, fun Cond => ?_⟩
      rw [Lib.Run.guarded_cons, Lib.Run.guarded_cons, hguarded Cond]
      rfl

/-- The start from a whole file replays the list of the server. -/
theorem Whole.startFrom {s : OnDisk} (h : s.Whole c) (cfg : StoreConfig) (clock : Nat → Nat) :
    (∃ entries store, startFrom rt c cfg clock s.log.file = .ok (entries, store)) ↔
      ∃ store, replayWal rt (stamped clock s.server.wal) (KvStore.withConfig cfg) = .ok store := by
  simp only [Daikon.startFrom, h.readAll]
  cases hreplay : replayWal rt (stamped clock s.server.wal) (KvStore.withConfig cfg) with
  | error e => simp [Except.map]
  | ok store => simp [Except.map]

end OnDisk

end Daikon
