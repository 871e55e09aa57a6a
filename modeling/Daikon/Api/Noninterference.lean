/-
# Daikon.Api.Noninterference -- clients that keep to their keys

Clients send requests and scripts to one server, in any order. A client that goes by the keys of a set is
answered as if it were alone, as long as the others change no key of the set; they may read them. Clean-up,
transactions, recoveries and the sync of a replica go by the whole store and are not among the requests, and
nothing may be evicted.

The proof is by unwinding, with the rules of `Daikon.Lib.Unwinding`: a step of the client is answered alike
in related states and leads to related states, and a step of another client leaves the state related. The
relation is agreement on the keys of the client, with both stores steady; that is where an open transaction
and an eviction are shut out, since both would let a request reach keys that it does not name.

What a script reads decides what it writes, so whether it goes by the keys is asked of the calls that it
comes to make in the state at hand (`KeepsTo`), not of its text. The result has two halves: the answers that
the client is given, one by one, and its keys at the end.
-/
import Daikon.Api.Local
import Daikon.Lib.Unwinding

namespace Daikon

open KvStore (Alike SameOn Steady)
open Lib.Run (Guarded)
open Lib.Unwinding (Unwinds answers)

variable {K : Set String} {rt : Runtime} {c : SnapshotCodec}

/-! ## Scripts -/

/-- The keys that a binding goes by. -/
def Binding.names : Binding → List String
  | get key | set key _ | setex key _ _ | delete key | incr key | exists_ key | ttl key | pttl key
  | hset key _ _ | hget key _ | hdel key _ | hgetall key => [key]
  | print _ => []

namespace ScriptState

/-- The same script on stores that are the same on the keys. -/
structure AlikeOn (K : Set String) (st st' : ScriptState) : Prop where
  stores : SameOn K st.store st'.store
  steady : st.store.Steady
  steady' : st'.store.Steady
  logged : st.wal.isSome = st'.wal.isSome
  output : st.output = st'.output
  mutations : st.mutations = st'.mutations
  reads : st.reads = st'.reads

variable {st st' : ScriptState} (h : AlikeOn K st st')

include h

theorem ask_local {io : ScriptIo} {answer : Nat → KvStore → BindingAnswer}
    (hanswer : ∀ now, answer now st.store = answer now st'.store) :
    (st.ask io answer).1 = (st'.ask io answer).1 ∧ AlikeOn K (st.ask io answer).2 (st'.ask io answer).2 := by
  refine ⟨?_, { h with reads := congrArg (· + 1) h.reads }⟩
  simp only [ask]
  rw [hanswer, h.reads]

/-- A binding that makes the store call `w`. -/
theorem perform_local (rt : Runtime) {io : ScriptIo} {call : Nat → KvStore → BindingAnswer × KvStore}
    (w : Write)
    (hcall : ∀ now, Alike K (call now st.store) (call now st'.store))
    (hwrite : ∀ now store, (call now store).2 = (store.write rt now w).2) :
    (st.perform io call).1 = (st'.perform io call).1 ∧
      AlikeOn K (st.perform io call).2 (st'.perform io call).2 := by
  obtain ⟨hanswer, hstores⟩ := hcall (io.now st.mutations)
  unfold perform
  rw [← h.mutations]
  refine ⟨hanswer, { h with stores := hstores, steady := ?_, steady' := ?_, mutations := ?_ }⟩
  · simp only [hwrite]
    exact h.steady.write rt _ w
  · simp only [hwrite]
    exact h.steady'.write rt _ w
  · simp only [h.mutations]

theorem logFirst_local (rt : Runtime) {io : ScriptIo} (operation : WalOperation)
    {call : Nat → KvStore → BindingAnswer × KvStore} (w : Write)
    (hcall : ∀ now, Alike K (call now st.store) (call now st'.store))
    (hwrite : ∀ now store, (call now store).2 = (store.write rt now w).2) :
    (st.logFirst io operation call).1 = (st'.logFirst io operation call).1 ∧
      AlikeOn K (st.logFirst io operation call).2 (st'.logFirst io operation call).2 := by
  have hlogged := h.logged
  unfold logFirst append
  rw [← h.mutations]
  cases hwal : st.wal with
  | none =>
      rw [hwal] at hlogged
      have hnone : st'.wal = none := Option.not_isSome_iff_eq_none.mp (by rw [← hlogged]; simp)
      rw [hnone]
      exact perform_local h rt w hcall hwrite
  | some log =>
      rw [hwal] at hlogged
      obtain ⟨log', hwal'⟩ := Option.isSome_iff_exists.mp hlogged.symm
      rw [hwal']
      cases io.disk st.mutations with
      | some e => exact ⟨rfl, { h with mutations := congrArg (· + 1) h.mutations }⟩
      | none =>
          refine perform_local ?_ rt w hcall hwrite
          exact { h with logged := rfl, mutations := rfl }

omit h in
theorem raise_local {α : Type} {r r' : Except KvStoreError α × KvStore} (h : Alike K r r')
    (answer : α → BindingAnswer) : Alike K (raise answer r) (raise answer r') := by
  obtain ⟨result, s, t, rfl, rfl, hstores⟩ := h.split
  cases result <;> exact ⟨rfl, hstores⟩

theorem binding_local (rt : Runtime) (io : ScriptIo) {b : Binding} (hnames : ∀ k ∈ b.names, k ∈ K) :
    (st.binding rt io b).1 = (st'.binding rt io b).1 ∧
      AlikeOn K (st.binding rt io b).2 (st'.binding rt io b).2 := by
  cases b with
  | get key =>
      refine ask_local h fun now => ?_
      rw [h.stores.get now (hnames key (by simp [Binding.names]))]
  | exists_ key =>
      refine ask_local h fun now => ?_
      simp only [KvStore.exists_, h.stores.get now (hnames key (by simp [Binding.names]))]
  | ttl key =>
      refine ask_local h fun now => ?_
      rw [h.stores.ttlSeconds now (hnames key (by simp [Binding.names]))]
  | pttl key =>
      refine ask_local h fun now => ?_
      rw [h.stores.pttlMillis now (hnames key (by simp [Binding.names]))]
  | hget key field =>
      refine ask_local h fun now => ?_
      simp only [KvStore.hget, h.stores.readHash now (hnames key (by simp [Binding.names]))]
  | hgetall key =>
      refine ask_local h fun now => ?_
      simp only [KvStore.hgetall, h.stores.readHash now (hnames key (by simp [Binding.names]))]
  | print message => exact ⟨rfl, { h with output := congrArg (print message) h.output }⟩
  | set key value =>
      refine logFirst_local h rt _ (.set key (.str value)) (fun now => ?_) fun now store => raise_snd _ _
      exact raise_local (KvStore.setWithExpiry_local h.stores h.steady h.steady' now key _ none) _
  | setex key value ttlSecs =>
      refine logFirst_local h rt _ (.setWithTtl key (.str value) ttlSecs) (fun now => ?_)
        fun now store => raise_snd _ _
      exact raise_local (KvStore.setWithExpiry_local h.stores h.steady h.steady' now key _ _) _
  | delete key =>
      refine logFirst_local h rt _ (.delete key) (fun now => ?_) fun now store => rfl
      obtain ⟨answer, s, t, hs, ht, hstores⟩ := (KvStore.delete_local h.stores h.steady h.steady' now
        (hnames key (by simp [Binding.names]))).split
      simp only [hs, ht]
      exact ⟨rfl, hstores⟩
  | incr key =>
      refine logFirst_local h rt _ (.incr key) (fun now => ?_) fun now store => raise_snd _ _
      exact raise_local (KvStore.addToInt_local h.stores (hnames key (by simp [Binding.names])) 1) _
  | hset key field value =>
      refine perform_local h rt (.hset key ((∅ : Fields).insert field value)) (fun now => ?_)
        fun now store => rfl
      obtain ⟨answer, s, t, hs, ht, hstores⟩ := (KvStore.hset_local h.stores
        (hnames key (by simp [Binding.names])) ((∅ : Fields).insert field value)).split
      simp only [hs, ht]
      exact ⟨rfl, hstores⟩
  | hdel key field =>
      refine perform_local h rt (.hdel key [field]) (fun now => ?_) fun now store => rfl
      obtain ⟨answer, s, t, hs, ht, hstores⟩ := (KvStore.hdel_local h.stores
        (hnames key (by simp [Binding.names])) [field]).split
      simp only [hs, ht]
      exact ⟨rfl, hstores⟩

end ScriptState

/-- The bindings that a script calls name keys of the set. -/
theorem executeScript_local {s t : KvStore} (h : SameOn K s t) (hs : s.Steady) (ht : t.Steady) (io : ScriptIo)
    (wal wal' : Option (List WalEntry)) (hlogged : wal.isSome = wal'.isSome) {script : Script}
    (hnames : ∀ b ∈ script.bindings rt io s wal, ∀ k ∈ b.names, k ∈ K) :
    (executeScript rt io s wal script).1 = (executeScript rt io t wal' script).1 ∧
      SameOn K (executeScript rt io s wal script).2.store (executeScript rt io t wal' script).2.store := by
  have hstart : ScriptState.AlikeOn K { store := s, wal } { store := t, wal := wal' } :=
    ⟨h, hs, ht, hlogged, rfl, rfl, rfl⟩
  have hcall := fun st st' (b : Binding) (hst : ScriptState.AlikeOn K st st') (hb : ∀ k ∈ b.names, k ∈ K) =>
    ScriptState.binding_local hst rt io hb
  obtain ⟨hresult, hstates, -⟩ := Lib.Program.run_sim hcall script hstart hnames
  unfold executeScript
  simp only [hresult, hstates.output]
  cases (script.run (ScriptState.binding rt io) { store := t, wal := wal' }).1 <;>
    exact ⟨rfl, hstates.stores⟩

namespace Server

theorem luaExecScript_local {srv srv' : Server} (h : SameOn K srv.store srv'.store) (hs : srv.store.Steady)
    (ht : srv'.store.Steady) (hruntime : srv.runtime = srv'.runtime) (io : ScriptIo) (text : String)
    {script : Script}
    (hnames : ∀ b ∈ script.bindings rt io srv.store (some srv.wal), ∀ k ∈ b.names, k ∈ K) :
    AlikeOn K (srv.luaExecScript rt io text script) (srv'.luaExecScript rt io text script) := by
  obtain ⟨hresult, hstores⟩ := executeScript_local h hs ht io (some srv.wal) (some srv'.wal) rfl hnames
  unfold luaExecScript
  rw [hruntime, hs.inTransaction, ht.inTransaction]
  simp only [Bool.false_eq_true, if_false, hresult]
  split
  · exact ⟨rfl, h⟩
  · split
    · exact ⟨rfl, h⟩
    · cases (executeScript rt io srv'.store (some srv'.wal) script).1 <;> exact ⟨rfl, hstores⟩

/-- The calls that a script makes change other keys. -/
theorem luaExecScript_apart {srv : Server} (hs : srv.store.Steady) (io : ScriptIo) (text : String)
    {script : Script}
    (hcalls : ∀ call ∈ script.calls rt io srv.store (some srv.wal), ∀ k ∈ call.write.keys, k ∉ K) :
    SameOn K (srv.luaExecScript rt io text script).2.store srv.store ∧
      (srv.luaExecScript rt io text script).2.store.Steady := by
  have hchanges : KeysOutside K
      (Request.luaExec (script.made rt io srv.store (some srv.wal) text)).changes := by
    refine ⟨_, rfl, fun k hk => ?_⟩
    obtain ⟨call, hcall, hkey⟩ := List.mem_flatMap.mp hk
    exact hcalls call hcall k hkey
  have hcalled := dispatchCalled_apart rt hs io.toIo hchanges
  have hends := luaExec_ends rt srv io.toIo (script.made rt io srv.store (some srv.wal) text)
  rw [luaExecScript_eq]
  rcases hends with ⟨-, hpublishes⟩ | ⟨⟨hstore, -⟩, -⟩
  · cases hpublishes
  · rw [hstore]
    exact hcalled

theorem luaExecScript_runtime (rt : Runtime) (srv : Server) (io : ScriptIo) (text : String) (script : Script) :
    (srv.luaExecScript rt io text script).2.runtime = srv.runtime := by
  rw [luaExecScript_eq, luaExec_snd, luaCalls_eq]
  split <;> rfl

end Server

/-! ## Clients -/

namespace HttpRequest

/-- The keys that a request goes by, if it goes by keys. -/
def names : HttpRequest → Option (List String)
  | write req => req.names
  | getValue key | existsKey key | getTtl key | getPttl key | hllPfcount key | hllInfo key | listLrange key _ _
  | listLlen key | hashHget key _ | hashHmget key _ | hashHgetall key | hashHkeys key | hashHvals key
  | hashHlen key | hashHexists key _ => some [key]
  | mgetValues keys => some keys
  | healthLive | healthReady => some []
  | _ => none

/-- The keys that it may change. -/
def changes : HttpRequest → Option (List String)
  | write req => req.changes
  | replicationSync => none
  | _ => some []

end HttpRequest

/-- What a client sends: a request, or a script with its text. -/
inductive ClientRequest where
  | http (io : AppIo) (req : HttpRequest)
  | lua (io : AppIo) (readAt : Nat → Nat) (text : String) (script : Script)

namespace App

/-- A script that is sent by a client, run through its bindings. -/
def luaExec (rt : Runtime) (app : App) (io : AppIo) (readAt : Nat → Nat) (text : String) (script : Script) :
    Response × App :=
  app.guarded io <|
    let r := app.server.luaExecScript rt { io.toIo with readAt } text script
    (r.1, { app with server := r.2 })

/-- Serve what a client sent. -/
def request (rt : Runtime) (c : SnapshotCodec) (app : App) : ClientRequest → Response × App
  | .http io req => app.handle rt c io req
  | .lua io readAt text script => app.luaExec rt io readAt text script

variable (K) (rt)

/-- What is sent goes by keys of the set only. -/
def Names (app : App) : ClientRequest → Prop
  | .http _ req => KeysIn K req.names
  | .lua io readAt _ script =>
      ∀ b ∈ script.bindings rt { io.toIo with readAt } app.server.store (some app.server.wal),
        ∀ k ∈ b.names, k ∈ K

/-- What is sent changes no key of the set. -/
def Spares (app : App) : ClientRequest → Prop
  | .http _ req => KeysOutside K req.changes
  | .lua io readAt _ script =>
      ∀ call ∈ script.calls rt { io.toIo with readAt } app.server.store (some app.server.wal),
        ∀ k ∈ call.write.keys, k ∉ K

/-- The same settings, and stores that are the same on the keys, both steady. -/
structure AlikeOn (app app' : App) : Prop where
  stores : SameOn K app.server.store app'.server.store
  steady : app.server.store.Steady
  steady' : app'.server.store.Steady
  runtime : app.server.runtime = app'.server.runtime

variable {K} {rt} {app app' : App}

/-- A request that goes by its keys has keys that it may change. -/
theorem spares_of_names {sent : ClientRequest} (h : Names K rt app sent) : Spares ∅ rt app' sent := by
  cases sent with
  | lua io readAt text script => exact fun call hcall k hk => Set.notMem_empty k
  | http io req =>
      obtain ⟨keys, hkeys, -⟩ := h
      have hsome : req.changes.isSome := by
        cases req with
        | write req =>
            cases req with
            | luaExec _ | cleanupExpired | multi | exec | discard | setKeyspaceConfig _
            | pitrRecoverToTimestamp _ _ | pitrRecoverLatestSnapshot _ => cases hkeys
            | _ => rfl
        | replicationSync => cases hkeys
        | _ => rfl
      obtain ⟨changes, hchanges⟩ := Option.isSome_iff_exists.mp hsome
      exact ⟨changes, hchanges, fun k hk => Set.notMem_empty k⟩

theorem request_apart (hs : app.server.store.Steady) {sent : ClientRequest} (h : Spares K rt app sent) :
    SameOn K (app.request rt c sent).2.server.store app.server.store ∧
      (app.request rt c sent).2.server.store.Steady := by
  cases sent with
  | lua io readAt text script =>
      simp only [request]
      unfold luaExec guarded
      cases requireApiKey io.headers app.server.runtime with
      | some refusal => exact ⟨.refl K _, hs⟩
      | none => exact Server.luaExecScript_apart hs { io.toIo with readAt } text h
  | http io req =>
      cases req with
      | write req => exact Server.handle_apart hs io.toIo h
      | replicationSync =>
          obtain ⟨keys, hkeys, -⟩ := h
          cases hkeys
      | _ =>
          simp only [request]
          rw [handle_server c (by simp) (by simp)]
          exact ⟨.refl K _, hs⟩

theorem request_runtime {sent : ClientRequest} :
    (app.request rt c sent).2.server.runtime = app.server.runtime := by
  cases sent with
  | lua io readAt text script =>
      simp only [request]
      unfold luaExec guarded
      cases requireApiKey io.headers app.server.runtime with
      | some refusal => rfl
      | none => exact Server.luaExecScript_runtime rt app.server { io.toIo with readAt } text script
  | http io req =>
      cases req with
      | write req => exact Server.handle_runtime rt app.server io.toIo req
      | replicationSync =>
          simp only [request, handle, replicationSync]
          cases app.replica with
          | none => rfl
          | some node =>
              simp only
              split <;> rfl
      | _ =>
          simp only [request]
          rw [handle_server c (by simp) (by simp)]

theorem guarded_answer {io : AppIo} (hruntime : app.server.runtime = app'.server.runtime)
    {answer answer' : Response} (h : answer = answer') :
    (app.guarded io (answer, app)).1 = (app'.guarded io (answer', app')).1 := by
  unfold guarded
  rw [hruntime, h]
  split <;> rfl

/-- A read of keys of the set. -/
theorem read_local (h : SameOn K app.server.store app'.server.store)
    (hruntime : app.server.runtime = app'.server.runtime) (io : AppIo) {req : HttpRequest}
    (hnames : KeysIn K req.names) (hread : ∀ r, req ≠ .write r) :
    (app.handle rt c io req).1 = (app'.handle rt c io req).1 := by
  obtain ⟨keys, hkeys, hK⟩ := hnames
  cases req with
  | write req => exact absurd rfl (hread req)
  | healthLive | healthReady =>
      simp only [handle, Server.healthLive, Server.healthReady, Server.healthResponse, hruntime]
  | mgetValues keys =>
      cases hkeys
      simp only [handle, Server.mgetValues, h.mget _ hK]
  | getValue key | existsKey key | getTtl key | getPttl key | hllPfcount key | hllInfo key =>
      cases hkeys
      have hkey := hK key (by simp)
      simp only [handle, Server.getValue, Server.existsKey, Server.getTtl, Server.getPttl, Server.hllPfcount,
        Server.hllInfo, KvStore.exists_, KvStore.pfcount, KvStore.hllInfo, h.get _ hkey, h.ttlSeconds _ hkey,
        h.pttlMillis _ hkey, h.readHll _ hkey]
  | listLrange key start stop =>
      cases hkeys
      exact guarded_answer hruntime (Alike.ofResult ⟨h.lrange _ (hK key (by simp)) _ _, h⟩ _).1
  | listLlen key =>
      cases hkeys
      exact guarded_answer hruntime (Alike.ofResult ⟨h.llen _ (hK key (by simp)), h⟩ _).1
  | hashHget key _ | hashHmget key _ | hashHgetall key | hashHkeys key | hashHvals key | hashHlen key
  | hashHexists key _ =>
      cases hkeys
      have hkey := hK key (by simp)
      refine guarded_answer hruntime ?_
      simp only [Server.hashHget, Server.hashHmget, Server.hashHgetall, Server.hashHkeys, Server.hashHvals,
        Server.hashHlen, Server.hashHexists, KvStore.hget, KvStore.hmget, KvStore.hgetall, KvStore.hkeys,
        KvStore.hvals, KvStore.hlen, KvStore.hexists, h.readHash _ hkey]
  | _ => cases hkeys

theorem request_local (h : AlikeOn K app app') {sent : ClientRequest} (hnames : Names K rt app sent) :
    (app.request rt c sent).1 = (app'.request rt c sent).1 ∧
      SameOn K (app.request rt c sent).2.server.store (app'.request rt c sent).2.server.store := by
  cases sent with
  | lua io readAt text script =>
      have hscript := Server.luaExecScript_local h.stores h.steady h.steady' h.runtime
        { io.toIo with readAt } text hnames
      simp only [request]
      unfold luaExec guarded
      rw [h.runtime]
      cases requireApiKey io.headers app'.server.runtime with
      | some refusal => exact ⟨rfl, h.stores⟩
      | none => exact hscript
  | http io req =>
      by_cases hwrite : ∃ r, req = .write r
      · obtain ⟨r, rfl⟩ := hwrite
        exact Server.handle_local h.stores h.steady h.steady' h.runtime io.toIo hnames
      · have hread : ∀ r, req ≠ .write r := fun r hr => hwrite ⟨r, hr⟩
        have hsync : req ≠ .replicationSync := by
          rintro rfl
          obtain ⟨keys, hkeys, -⟩ := hnames
          cases hkeys
        refine ⟨read_local h.stores h.runtime io hnames hread, ?_⟩
        simp only [request]
        rw [handle_server c hread hsync, handle_server c hread hsync]
        exact h.stores

end App

variable {Client : Type} [DecidableEq Client]

/-- The server answers the clients. -/
def serveClient (rt : Runtime) (c : SnapshotCodec) (app : App) (sent : Client × ClientRequest) :
    Response × App :=
  app.request rt c sent.2

/-- The client goes by the keys, and the others leave them alone. -/
def KeepsTo (rt : Runtime) (K : Set String) (client : Client) (app : App)
    (sent : Client × ClientRequest) : Prop :=
  if sent.1 = client then App.Names K rt app sent.2 else App.Spares K rt app sent.2

theorem serveClient_unwinds (client : Client) :
    Unwinds (serveClient rt c) (fun sent => decide (sent.1 = client)) (KeepsTo rt K client)
      (App.AlikeOn K) where
  mine := by
    intro app app' sent hkeeps hown h
    rw [KeepsTo, if_pos (of_decide_eq_true hown)] at hkeeps
    obtain ⟨hanswer, hstores⟩ := App.request_local (c := c) h hkeeps
    refine ⟨hanswer, hstores, ?_, ?_, ?_⟩
    · exact (App.request_apart h.steady (App.spares_of_names hkeeps)).2
    · exact (App.request_apart h.steady' (App.spares_of_names hkeeps)).2
    · exact App.request_runtime.trans (h.runtime.trans App.request_runtime.symm)
  others := by
    intro app app' sent hkeeps hother h
    rw [KeepsTo, if_neg fun hown => hother (decide_eq_true hown)] at hkeeps
    obtain ⟨hstores, hsteady⟩ := App.request_apart (c := c) h.steady hkeeps
    exact ⟨hstores.trans h.stores, hsteady, h.steady', App.request_runtime.trans h.runtime⟩

/-- In every run without an open transaction and without eviction, in which a client goes by keys that the
others do not change: it is answered as if the others had sent nothing, and finds the entries that it would
have left alone. -/
theorem noninterference (rt : Runtime) (c : SnapshotCodec) (K : Set String) (client : Client) (app : App)
    (hsteady : app.server.store.Steady) (sent : List (Client × ClientRequest))
    (hrun : Guarded (Lib.Unwinding.next (serveClient rt c)) (KeepsTo rt K client) app sent) :
    let mine := sent.filter fun s => s.1 = client
    answers (serveClient rt c) (fun s => s.1 = client) app sent
        = answers (serveClient rt c) (fun s => s.1 = client) app mine ∧
      SameOn K (sent.foldl (Lib.Unwinding.next (serveClient rt c)) app).server.store
        (mine.foldl (Lib.Unwinding.next (serveClient rt c)) app).server.store := by
  obtain ⟨hanswers, hfinal⟩ := (serveClient_unwinds client).purge
    (s := app) (t := app) ⟨.refl K _, hsteady, hsteady, rfl⟩ hrun
  exact ⟨hanswers, hfinal.stores⟩

/-- `set('b', get('a'))`. -/
def copyScript : Script :=
  .call (.get "a") fun
    | .text (some value) => .call (.set "b" value) fun _ => .done (.ok [.boolean true])
    | _ => .done (.ok [])

/-- One client has the key a; the other reads it and writes b. -/
theorem noninterference_copy :
    let io : AppIo := { Io.healthy 5 with }
    let serve : App → Bool × ClientRequest → Response × App := serveClient .strings (.plain [])
    let sent : List (Bool × ClientRequest) := [(true, .http io (.write (.setValue "a" "1" none))),
      (false, .lua io (fun _ => 5) "" copyScript), (true, .http io (.getValue "a"))]
    let mine := sent.filter fun s => s.1 = true
    let app : App := { server := .fresh { maxMemoryBytes := 0 } none false }
    answers serve (fun s => s.1 = true) app sent = answers serve (fun s => s.1 = true) app mine ∧
      SameOn {"a"} (sent.foldl (Lib.Unwinding.next serve) app).server.store
        (mine.foldl (Lib.Unwinding.next serve) app).server.store := by
  refine noninterference .strings (.plain []) {"a"} true _ ⟨rfl, .inl rfl⟩ _
    ⟨⟨["a"], rfl, ?_⟩, ?_, ⟨["a"], rfl, ?_⟩, trivial⟩
  · simp
  · show ∀ call ∈ copyScript.calls _ _ _ _, ∀ k ∈ call.write.keys, ¬ k = "a"
    decide +kernel
  · simp

end Daikon
