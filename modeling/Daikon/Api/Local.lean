/-
# Daikon.Api.Local -- requests that see and change some keys only

`names` are the keys that a request goes by, and `changes` those whose entries it may change; the requests
that go by the whole store have none of the two. Two servers that agree on the keys that a request names
answer it alike and agree on them afterwards (`handle_local`), and a request that changes none of some keys
leaves them (`called_apart`). Both need that no transaction is open and that nothing is evicted, and both
are true of scripts, with the calls that they come to make.

The relation is between two runs of one handler: the stores agree on a set of keys, and so do the answers
and the stores after them. It is proved once for a call of the store, then for the three kinds of handlers,
and then route by route, since a handler looks at the store through its calls alone.

Two exclusions stand in the names. A clean-up, a transaction and a recovery go by the whole store, so no set
of keys is theirs; an eviction takes a key that no request has named, so `Fits` is asked of the growth.
`Daikon.Api.Noninterference` and `Daikon.Api.Parallel` build on them.
-/
import Daikon.Api.Announced
import Daikon.Api.Script
import Daikon.Store.Local

namespace Daikon

open KvStore (Alike SameOn Steady)

/-! ## Keys -/

namespace PipelineCommand

/-- The keys that a command goes by. -/
def names : PipelineCommand → List String
  | mGet keys => keys
  | get key | set key _ _ | delete key | incr key | decr key | incrBy key _ | append key _ | getSet key _
  | exists_ key | lPush key _ | rPush key _ | lPop key | rPop key | lRange key _ _ | lLen key => [key]

/-- The keys that it may change. -/
def changes (cmd : PipelineCommand) : List String := cmd.logged.elim [] WalOperation.keys

end PipelineCommand

namespace Request

/-- The keys that a request goes by; clean-ups, transactions, scripts, settings and recoveries go by more. -/
def names : Request → Option (List String)
  | setValue key _ _ | deleteValue key | incrValue key | decrValue key | incrbyValue key _ | appendValue key _
  | getsetValue key _ | setExpire key _ | persistKey key | listLpush key _ | listRpush key _ | listLpop key
  | listRpop key | hashHset key _ | hashHdel key _ | hashHincrby key _ _ | hashHincrbyfloat key _ _
  | hllPfadd key _ | hllPfreserve key _ => some [key]
  | msetValues pairs => some (pairs.map Prod.fst)
  | pipelineExec commands => some (commands.flatMap PipelineCommand.names)
  | hllPfmerge destination sources => some (destination :: sources)
  | luaExec _ | cleanupExpired | multi | exec | discard | setKeyspaceConfig _ | pitrRecoverToTimestamp _ _
  | pitrRecoverLatestSnapshot _ => none

/-- The keys that it may change. -/
def changes : Request → Option (List String)
  | pipelineExec commands => some (commands.flatMap PipelineCommand.changes)
  | hllPfmerge destination _ => some [destination]
  | luaExec script => some (script.calls.flatMap fun call => call.write.keys)
  | setKeyspaceConfig _ => some []
  | req => req.names

end Request

/-- A list of keys, if there is one, of a set. -/
def KeysIn (K : Set String) (keys : Option (List String)) : Prop := ∃ ks, keys = some ks ∧ ∀ k ∈ ks, k ∈ K

/-- The same for keys outside the set. -/
def KeysOutside (K : Set String) (keys : Option (List String)) : Prop := ∃ ks, keys = some ks ∧ ∀ k ∈ ks, k ∉ K

variable {K : Set String} {rt : Runtime}

/-! ## Pipelines -/

theorem KvStore.Alike.ofResult {α : Type} {r r' : Except KvStoreError α × KvStore} (h : Alike K r r')
    (body : α → Body) : Alike K (Response.ofResult body r) (Response.ofResult body r') := by
  obtain ⟨answer, s, t, rfl, rfl, hstores⟩ := h.split
  cases answer <;> exact ⟨rfl, hstores⟩

theorem KvStore.Alike.pipelineResult {α : Type} {r r' : Except KvStoreError α × KvStore} (h : Alike K r r')
    (value : α → Option Json) :
    Alike K (PipelineResult.ofResult value r) (PipelineResult.ofResult value r') := by
  obtain ⟨answer, s, t, rfl, rfl, hstores⟩ := h.split
  cases answer <;> exact ⟨rfl, hstores⟩

section

variable {s t : KvStore} (h : SameOn K s t) (hs : s.Steady) (ht : t.Steady)

include h hs ht

theorem PipelineCommand.run_local (now : Nat) {cmd : PipelineCommand} (hnames : ∀ k ∈ cmd.names, k ∈ K) :
    Alike K (cmd.run rt now s) (cmd.run rt now t) := by
  cases cmd with
  | mGet keys =>
      have hvalues : s.mget now keys = t.mget now keys := h.mget now hnames
      refine ⟨?_, h⟩
      simp only [run, hvalues]
  | get key =>
      refine ⟨?_, h⟩
      simp only [run, h.get now (hnames key (by simp [names]))]
  | exists_ key =>
      refine ⟨?_, h⟩
      simp only [run, KvStore.exists_, h.get now (hnames key (by simp [names]))]
  | lRange key start stop =>
      refine Alike.pipelineResult ⟨?_, h⟩ _
      exact h.lrange now (hnames key (by simp [names])) _ _
  | lLen key =>
      refine Alike.pipelineResult ⟨?_, h⟩ _
      exact h.llen now (hnames key (by simp [names]))
  | set key value ttl =>
      cases ttl with
      | none => exact (KvStore.setWithExpiry_local h hs ht now key (.str value) none).pipelineResult _
      | some ttl =>
          exact (KvStore.setWithExpiry_local h hs ht now key (.str value) (checkedAdd now ttl)).pipelineResult _
  | delete key =>
      obtain ⟨answer, s', t', hsd, htd, hstores⟩ :=
        (KvStore.delete_local h hs ht now (hnames key (by simp [names]))).split
      simp only [run, hsd, htd]
      exact ⟨rfl, hstores⟩
  | incr key => exact (KvStore.addToInt_local h (hnames key (by simp [names])) 1).pipelineResult _
  | decr key => exact (KvStore.addToInt_local h (hnames key (by simp [names])) (-1)).pipelineResult _
  | incrBy key amount => exact (KvStore.addToInt_local h (hnames key (by simp [names])) amount).pipelineResult _
  | append key value =>
      exact (KvStore.append_local h hs ht now (hnames key (by simp [names])) value).pipelineResult _
  | getSet key value =>
      exact (KvStore.getset_local h hs ht now (hnames key (by simp [names])) (.str value)).pipelineResult _
  | lPush key values =>
      exact (KvStore.pushWith_local h (hnames key (by simp [names])) KvStore.pushFront values).pipelineResult _
  | rPush key values =>
      exact (KvStore.pushWith_local h (hnames key (by simp [names])) (· ++ ·) values).pipelineResult _
  | lPop key => exact (KvStore.popWith_local h (hnames key (by simp [names])) KvStore.popFront).pipelineResult _
  | rPop key => exact (KvStore.popWith_local h (hnames key (by simp [names])) KvStore.popBack).pipelineResult _

omit h hs ht in
theorem PipelineCommand.run_steady (rt : Runtime) (hs : s.Steady) (now : Nat) (cmd : PipelineCommand) :
    (cmd.run rt now s).2.Steady := by
  cases hop : cmd.logged with
  | some op =>
      rw [run_logged hop]
      exact hs.write rt now op.raw
  | none =>
      rw [run_unlogged hop]
      exact hs

theorem carryOut_local (rt : Runtime) (io : Io) {cmds : List PipelineCommand}
    (hnames : ∀ k ∈ cmds.flatMap PipelineCommand.names, k ∈ K) :
    ∀ n, Alike K (carryOut rt io n cmds s) (carryOut rt io n cmds t) := by
  induction cmds generalizing s t with
  | nil => exact fun _ => ⟨rfl, h⟩
  | cons cmd cmds ih =>
      intro n
      rw [List.flatMap_cons] at hnames
      have hfirst : Alike K (cmd.execute rt (io.now n) (io.failure n cmd) s)
          (cmd.execute rt (io.now n) (io.failure n cmd) t) := by
        unfold PipelineCommand.execute
        cases io.failure n cmd with
        | some e => exact ⟨rfl, h⟩
        | none =>
            exact PipelineCommand.run_local h hs ht (io.now n)
              fun k hk => hnames k (List.mem_append_left _ hk)
      have hsteady : ∀ {u : KvStore}, u.Steady →
          (cmd.execute rt (io.now n) (io.failure n cmd) u).2.Steady := by
        intro u hu
        unfold PipelineCommand.execute
        cases io.failure n cmd with
        | some e => exact hu
        | none => exact PipelineCommand.run_steady rt hu (io.now n) cmd
      obtain ⟨hrest, hstores⟩ := ih hfirst.2 (hsteady hs) (hsteady ht)
        (fun k hk => hnames k (List.mem_append_right _ hk)) (n + 1)
      unfold carryOut
      refine ⟨?_, hstores⟩
      simp only
      rw [hfirst.1, hrest]

end

/-! ## Requests that go by their keys -/

namespace Server

/-- The same answer, and servers that are the same on the keys. -/
def AlikeOn (K : Set String) (r r' : Response × Server) : Prop := r.1 = r'.1 ∧ SameOn K r.2.store r'.2.store

section

variable {srv srv' : Server} (h : SameOn K srv.store srv'.store)

include h

theorem logFirst_local (io : Io) (failure : String) (op : WalOperation) (publish : Bool)
    {call : KvStore → Response × KvStore} (hcall : Alike K (call srv.store) (call srv'.store)) :
    AlikeOn K (srv.logFirst io failure op publish call) (srv'.logFirst io failure op publish call) := by
  unfold logFirst append
  cases io.disk 0 with
  | some e => exact ⟨rfl, h⟩
  | none =>
      refine ⟨hcall.1, ?_⟩
      cases publish with
      | false => exact hcall.2
      | true => exact hcall.2.congr rfl rfl rfl rfl

variable (hs : srv.store.Steady) (ht : srv'.store.Steady)

theorem hashHincrbyfloat_local (io : Io) {key : String} (hkey : key ∈ K) (field : String) (amount : Float) :
    AlikeOn K (srv.hashHincrbyfloat rt io key field amount) (srv'.hashHincrbyfloat rt io key field amount) := by
  obtain ⟨answer, s', t', hsf, htf, hstores⟩ :=
    (KvStore.addToField_local h hkey rt.f64Parse 0.0 (· + ·) rt.f64ToString field amount).split
  unfold hashHincrbyfloat KvStore.hincrbyfloat
  rw [hsf, htf]
  cases answer with
  | error e => exact ⟨rfl, hstores⟩
  | ok value =>
      unfold append
      cases io.disk 0 <;> exact ⟨rfl, hstores⟩

include hs ht

theorem pipelineExec_local (io : Io) {commands : List PipelineCommand}
    (hnames : ∀ k ∈ commands.flatMap PipelineCommand.names, k ∈ K) :
    AlikeOn K (srv.pipelineExec rt io commands) (srv'.pipelineExec rt io commands) := by
  obtain ⟨answers, s', t', hsc, htc, hstores⟩ := (carryOut_local h hs ht rt io hnames 0).split
  unfold pipelineExec
  split
  · exact ⟨rfl, h⟩
  · split
    · exact ⟨rfl, h⟩
    · simp only [batchWal_snd, executeAll_eq, hsc, htc]
      exact ⟨rfl, hstores.congr rfl rfl rfl rfl⟩

theorem dispatch_local (io : Io) {req : Request} (hnames : KeysIn K req.names) :
    AlikeOn K (srv.dispatch rt io req) (srv'.dispatch rt io req) := by
  obtain ⟨keys, hkeys, hK⟩ := hnames
  cases req with
  | luaExec _ | cleanupExpired | multi | exec | discard | setKeyspaceConfig _ | pitrRecoverToTimestamp _ _
  | pitrRecoverLatestSnapshot _ => cases hkeys
  | msetValues pairs => exact logFirst_local h io _ _ _ ((KvStore.mset_local h hs ht _ rt pairs).ofResult _)
  | pipelineExec commands =>
      cases hkeys
      exact pipelineExec_local h hs ht io hK
  | hllPfmerge destination sources =>
      cases hkeys
      exact (KvStore.pfmerge_local h (hK destination (by simp))
        fun source hsource => hK source (by simp [hsource])).ofResult _
  | setValue key value ttl =>
      simp only [dispatch, setValue]
      split
      · exact ⟨rfl, h⟩
      · split
        · exact ⟨rfl, h⟩
        · refine logFirst_local h io _ _ _ (Alike.ofResult ?_ _)
          cases ttl with
          | none => exact KvStore.setWithExpiry_local h hs ht _ key _ none
          | some ttl => exact KvStore.setWithExpiry_local h hs ht _ key _ _
  | deleteValue key =>
      cases hkeys
      obtain ⟨answer, s', t', hsd, htd, hstores⟩ :=
        (KvStore.delete_local h hs ht (io.now 0) (hK key (by simp))).split
      refine logFirst_local h io _ _ _ ?_
      rw [hsd, htd]
      cases answer <;> exact ⟨rfl, hstores⟩
  | setExpire key ttl =>
      cases hkeys
      simp only [dispatch, setExpire]
      split
      · exact ⟨rfl, h⟩
      · obtain ⟨answer, s', t', hse, hte, hstores⟩ :=
          (KvStore.expire_local h (io.now 0) (hK key (by simp)) ttl).split
        refine logFirst_local h io _ _ _ ?_
        rw [hse, hte]
        cases answer <;> exact ⟨rfl, hstores⟩
  | persistKey key =>
      cases hkeys
      obtain ⟨answer, s', t', hsp, htp, hstores⟩ :=
        (KvStore.persist_local h (io.now 0) (hK key (by simp))).split
      refine logFirst_local h io _ _ _ ?_
      rw [hsp, htp]
      cases answer <;> exact ⟨rfl, hstores⟩
  | hashHincrbyfloat key field amount =>
      cases hkeys
      exact hashHincrbyfloat_local h io (hK key (by simp)) field amount
  | incrValue key =>
      cases hkeys
      exact logFirst_local h io _ _ _ ((KvStore.addToInt_local h (hK key (by simp)) 1).ofResult _)
  | decrValue key =>
      cases hkeys
      exact logFirst_local h io _ _ _ ((KvStore.addToInt_local h (hK key (by simp)) (-1)).ofResult _)
  | incrbyValue key amount =>
      cases hkeys
      exact logFirst_local h io _ _ _ ((KvStore.addToInt_local h (hK key (by simp)) amount).ofResult _)
  | appendValue key value =>
      cases hkeys
      exact logFirst_local h io _ _ _ ((KvStore.append_local h hs ht _ (hK key (by simp)) value).ofResult _)
  | getsetValue key value =>
      cases hkeys
      exact logFirst_local h io _ _ _ ((KvStore.getset_local h hs ht _ (hK key (by simp)) _).ofResult _)
  | listLpush key values =>
      cases hkeys
      exact logFirst_local h io _ _ _ ((KvStore.pushWith_local h (hK key (by simp)) _ values).ofResult _)
  | listRpush key values =>
      cases hkeys
      exact logFirst_local h io _ _ _ ((KvStore.pushWith_local h (hK key (by simp)) _ values).ofResult _)
  | listLpop key =>
      cases hkeys
      exact logFirst_local h io _ _ _ ((KvStore.popWith_local h (hK key (by simp)) _).ofResult _)
  | listRpop key =>
      cases hkeys
      exact logFirst_local h io _ _ _ ((KvStore.popWith_local h (hK key (by simp)) _).ofResult _)
  | hashHset key fields =>
      cases hkeys
      exact logFirst_local h io _ _ _ ((KvStore.hset_local h (hK key (by simp)) fields).ofResult _)
  | hashHdel key fields =>
      cases hkeys
      exact logFirst_local h io _ _ _ ((KvStore.hdel_local h (hK key (by simp)) fields).ofResult _)
  | hashHincrby key field amount =>
      cases hkeys
      exact logFirst_local h io _ _ _
        ((KvStore.addToField_local h (hK key (by simp)) _ _ _ _ field amount).ofResult _)
  | hllPfadd key values =>
      cases hkeys
      exact (KvStore.pfadd_local h (hK key (by simp)) rt values).ofResult _
  | hllPfreserve key precision =>
      cases hkeys
      exact (KvStore.pfreserve_local h (hK key (by simp)) precision).ofResult _

end

theorem handle_local {srv srv' : Server} (h : SameOn K srv.store srv'.store) (hs : srv.store.Steady)
    (ht : srv'.store.Steady) (hruntime : srv.runtime = srv'.runtime) (io : Io) {req : Request}
    (hnames : KeysIn K req.names) : AlikeOn K (srv.handle rt io req) (srv'.handle rt io req) := by
  unfold handle
  rw [hruntime]
  cases requireApiKey io.headers srv'.runtime with
  | some refusal => exact ⟨rfl, h⟩
  | none => exact dispatch_local h hs ht io hnames

/-! ## Requests that change other keys -/

theorem mem_effect_call {io : Io} {n now : Nat} {op : WalOperation} {w w' : Write}
    (h : (now, w') ∈ (io.effect n op w).filterMap Effect.call) : w' = w := by
  unfold Io.effect at h
  cases hdisk : io.disk n with
  | some e =>
      rw [hdisk] at h
      cases h
  | none =>
      rw [hdisk] at h
      simp only [List.filterMap_cons, List.filterMap_nil, List.mem_singleton, Prod.mk.injEq] at h
      exact h.2

theorem pipelineEffects_keys {io : Io} {now : Nat} {w : Write} {cmds : List PipelineCommand} :
    ∀ {n : Nat}, (now, w) ∈ (pipelineEffects io n cmds).filterMap Effect.call →
      ∀ k ∈ w.keys, k ∈ cmds.flatMap PipelineCommand.changes := by
  induction cmds with
  | nil => exact fun h => nomatch h
  | cons cmd cmds ih =>
      intro n h k hk
      rw [pipelineEffects, List.filterMap_append, List.mem_append] at h
      rw [List.flatMap_cons, List.mem_append]
      rcases h with h | h
      · cases hop : cmd.logged with
        | none =>
            rw [hop] at h
            cases h
        | some op =>
            rw [hop] at h
            rw [mem_effect_call h, WalOperation.raw_keys] at hk
            rw [PipelineCommand.changes, hop]
            exact .inl hk
      · exact .inr (ih h k hk)

theorem luaEffects_keys {io : Io} {now : Nat} {w : Write} {calls : List LuaCall} :
    ∀ {n : Nat}, (now, w) ∈ (luaEffects rt io n calls).filterMap Effect.call →
      ∀ k ∈ w.keys, k ∈ calls.flatMap fun call => call.write.keys := by
  induction calls with
  | nil => exact fun h => nomatch h
  | cons call calls ih =>
      intro n h k hk
      rw [luaEffects, List.filterMap_append, List.mem_append] at h
      rw [List.flatMap_cons, List.mem_append]
      rcases h with h | h
      · cases hop : call.logged rt with
        | none =>
            rw [hop] at h
            simp only [List.filterMap_cons, List.filterMap_nil, List.mem_singleton, Prod.mk.injEq] at h
            exact .inl (h.2 ▸ hk)
        | some op =>
            rw [hop] at h
            exact .inl (mem_effect_call h ▸ hk)
      · exact .inr (ih h k hk)

/-- The calls of a write are of the keys that it may change. -/
theorem dispatchEffects_keys {srv : Server} {io : Io} {req : Request} {keys : List String}
    (hchanges : req.changes = some keys) {now : Nat} {w : Write}
    (h : (now, w) ∈ (dispatchEffects rt srv io req).filterMap Effect.call) : ∀ k ∈ w.keys, k ∈ keys := by
  cases hop : req.loggedWrite rt with
  | some p =>
      obtain ⟨op, w'⟩ := p
      rw [dispatchEffects_loggedWrite srv io hop] at h
      obtain rfl := mem_effect_call h
      cases req with
      | setValue key value ttl =>
          cases hchanges
          simp only [Request.loggedWrite] at hop
          split at hop
          · cases hop
          · split at hop
            · cases hop
            · cases hop
              rw [WalOperation.raw_keys]
              exact fun k hk => hk
      | setExpire key ttl =>
          cases hchanges
          simp only [Request.loggedWrite] at hop
          split at hop
          · cases hop
          · cases hop
            exact fun k hk => hk
      | hashHincrbyfloat _ _ _ | pipelineExec _ | luaExec _ | cleanupExpired | multi | exec | discard
      | hllPfadd _ _ | hllPfreserve _ _ | hllPfmerge _ _ | setKeyspaceConfig _ | pitrRecoverToTimestamp _ _
      | pitrRecoverLatestSnapshot _ => cases hop
      | _ =>
          cases hop
          cases hchanges
          exact fun k hk => hk
  | none =>
      cases req with
      | pipelineExec commands =>
          cases hchanges
          simp only [dispatchEffects] at h
          split at h
          · exact pipelineEffects_keys h
          · cases h
      | luaExec script =>
          cases hchanges
          simp only [dispatchEffects] at h
          split at h
          · exact luaEffects_keys h
          · cases h
      | hashHincrbyfloat key field amount =>
          cases hchanges
          simp only [dispatchEffects] at h
          split at h
          · simp only [List.filterMap_cons, List.filterMap_nil, List.mem_singleton, Prod.mk.injEq] at h
            rw [h.2]
            exact fun k hk => hk
          · cases h
      | _ =>
          simp only [dispatchEffects, hop] at h
          cases h

end Server

/-- Calls of other keys, in turn. -/
theorem KvStore.Steady.writes {s : KvStore} (hs : s.Steady) (rt : Runtime) {calls : List (Nat × Write)}
    (hcalls : ∀ c ∈ calls, ∀ k ∈ c.2.keys, k ∉ K) :
    SameOn K (s.writes rt calls) s ∧ (s.writes rt calls).Steady := by
  induction calls generalizing s with
  | nil => exact ⟨.refl K s, hs⟩
  | cons c calls ih =>
      obtain ⟨hstores, hsteady⟩ := ih (hs.write rt c.1 c.2) fun c' hc' => hcalls c' (List.mem_cons_of_mem c hc')
      exact ⟨hstores.trans (KvStore.write_apart hs rt c.1 (hcalls c (by simp))), hsteady⟩

theorem KvStore.Steady.pfreserve {s : KvStore} (hs : s.Steady) (key : String) (precision : Nat) :
    (s.pfreserve key precision).2.Steady := by
  unfold KvStore.pfreserve
  split
  · exact hs
  · split
    · exact hs
    · exact ⟨hs.idle, hs.room⟩

/-- The HyperLogLog merge changes its destination only. -/
theorem KvStore.pfmerge_apart {destination : String} (h : destination ∉ K) (s : KvStore)
    (sources : List String) : SameOn K (s.pfmerge destination sources).2 s := by
  have hconfig := (write_frame Runtime.strings s 0 (.pfmerge destination sources)).1
  simp only [KvStore.write, reply_snd] at hconfig
  refine ⟨fun k hk => ?_, by rw [hconfig], by rw [hconfig]⟩
  exact (pfmerge_puts s destination sources).contents_of_ne fun heq => h (heq ▸ hk)

namespace Server

/-- What a request leaves of the keys that it may not change. -/
theorem dispatchCalled_apart (rt : Runtime) {srv : Server} (hs : srv.store.Steady) (io : Io) {req : Request}
    (hchanges : KeysOutside K req.changes) :
    SameOn K (dispatchCalled rt srv io req) srv.store ∧ (dispatchCalled rt srv io req).Steady := by
  obtain ⟨keys, hkeys, hK⟩ := hchanges
  by_cases hwrite : req.IsWrite
  · rw [dispatchCalled_write srv io hwrite]
    exact hs.writes rt fun c hc k hk => hK k (dispatchEffects_keys hkeys hc k hk)
  · cases req with
    | cleanupExpired | multi | exec | discard | pitrRecoverToTimestamp _ _
    | pitrRecoverLatestSnapshot _ => cases hkeys
    | setKeyspaceConfig enabled => exact ⟨⟨fun k hk => rfl, rfl, rfl⟩, hs.idle, hs.room⟩
    | hllPfadd key values =>
        cases hkeys
        have hkeys : ∀ call ∈ [((0 : Nat), Write.pfadd key values)], ∀ k ∈ call.2.keys, k ∉ K := by
          simpa [Write.keys] using hK
        have hcall := hs.writes rt hkeys
        simp only [KvStore.writes_cons, KvStore.writes_nil, KvStore.write, KvStore.reply_snd] at hcall
        exact hcall
    | hllPfreserve key precision =>
        cases hkeys
        exact ⟨KvStore.pfreserve_apart (hK key (by simp)) srv.store precision, hs.pfreserve key precision⟩
    | hllPfmerge destination sources =>
        cases hkeys
        have hsteady := hs.write rt 0 (.pfmerge destination sources)
        simp only [KvStore.write, KvStore.reply_snd] at hsteady
        exact ⟨KvStore.pfmerge_apart (hK destination (by simp)) srv.store sources, hsteady⟩
    | _ => exact absurd trivial hwrite

theorem handle_apart {srv : Server} (hs : srv.store.Steady) (io : Io) {req : Request}
    (hchanges : KeysOutside K req.changes) :
    SameOn K (srv.handle rt io req).2.store srv.store ∧ (srv.handle rt io req).2.store.Steady := by
  have hcalled : SameOn K (srv.called rt io req) srv.store ∧ (srv.called rt io req).Steady := by
    unfold called
    cases requireApiKey io.headers srv.runtime with
    | some refusal => exact ⟨.refl K _, hs⟩
    | none => exact dispatchCalled_apart rt hs io hchanges
  obtain ⟨hstores, hsteady⟩ := hcalled
  rcases handle_ends rt srv io req with ⟨⟨hstore, -⟩, -⟩ | ⟨⟨hstore, -⟩, -⟩
  · rw [hstore]
    exact ⟨hstores.congr rfl rfl rfl rfl, hsteady.idle, hsteady.room⟩
  · rw [hstore]
    exact ⟨hstores, hsteady⟩

/-- No handler changes the settings of the API. -/
theorem handle_runtime (rt : Runtime) (srv : Server) (io : Io) (req : Request) :
    (srv.handle rt io req).2.runtime = srv.runtime := by
  cases hkey : requireApiKey io.headers srv.runtime with
  | some refusal => simp only [handle, hkey]
  | none =>
      cases hop : req.loggedWrite rt with
      | some p => exact handle_loggedWrite_runtime hop hkey
      | none =>
          simp only [handle, hkey]
          cases req with
          | pipelineExec commands =>
              simp only [dispatch, pipelineExec_eq]
              split <;> rfl
          | luaExec script =>
              simp only [dispatch, luaExec_snd, luaCalls_eq]
              split <;> rfl
          | hashHincrbyfloat key field amount =>
              simp only [dispatch, hashHincrbyfloat, append]
              rcases srv.store.hincrbyfloat rt key field amount with ⟨e | value, store⟩
              · rfl
              · cases io.disk 0 <;> rfl
          | setValue key value ttl =>
              simp only [dispatch]
              rw [setValue_unlogged srv io hop]
          | setExpire key ttl =>
              simp only [dispatch]
              rw [setExpire_unlogged srv io hop]
          | multi | exec | discard => simp only [dispatch, multi, exec, discard, transactionAnswer_snd]
          | pitrRecoverToTimestamp target recovered => cases recovered <;> rfl
          | pitrRecoverLatestSnapshot recovered => cases recovered <;> rfl
          | cleanupExpired | hllPfadd _ _ | hllPfreserve _ _ | hllPfmerge _ _ | setKeyspaceConfig _ => rfl
          | _ => cases hop

end Server

end Daikon
