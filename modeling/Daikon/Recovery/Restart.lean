/-
# Daikon.Recovery.Restart -- shutdown, start, and the log that is replayed again

The shutdown handler saves the store and leaves the log as it is; the next start loads the store and
replays the whole log on top. `restart_restores_saved` says for which logs that changes no value.

A life is a list of requests and of restarts, each restart with the clocks that its replay reads and the
order of recency that the loaded store is given, since a file holds none. A start whose replay fails is no
start, and leaves the files as they were.

Nothing is asked of what a request answers. It is asked that every store call has its entry (`WalLogged`),
and `Harmless` goes by entries and by the store before the step: what the log says of a key pins it or is
mild at it, and neither the request nor the replay evicts. A request whose append fails makes no entry and
no call where the handler logs first, and such requests stand in these runs; the append that fails is then
taken to have written nothing, which is what `Daikon.Recovery.OnDisk` asks of the file by name.

The invariant is `Living`: the store is well formed, its configuration is that of the start, and the log is
`Kept`. `append_doubled` is what a restart does to an APPEND whose key was never put.
-/
import Daikon.Api.Effects
import Daikon.Recovery.Crash
import Daikon.Recovery.Repeat

namespace Daikon

open Lib.KeyedLog (run run_append)
open Lib.Run (Guarded)

/-- `load_from_file` of a saved store, then `set_config`: entries and counters are kept, and the
recency list is made from the keys in some order. -/
def KvStore.loaded (saved : KvStore) (cfg : StoreConfig) (lruOrder : List String) : KvStore :=
  { store := saved.store, stats := saved.stats, config := cfg, lruOrder }

/-- The calls that replay makes of a list of entries. -/
def replayCalls (rt : Runtime) (entries : List (Nat × WalEntry)) : List (Nat × Write) :=
  entries.filterMap fun e => (e.2.operation.replayed rt).map fun w => (e.1, w)

/-- Replay makes the logged call of the effect again, or drops it: a SET is within the limits, and a
text that decodes is decoded to the value that was put. -/
def Effect.Repeatable (rt : Runtime) (cfg : StoreConfig) (e : Effect) : Prop :=
  ∀ entry c, e.logged = some entry → e.call = some c → entry.operation.Replayable rt cfg ∧
    (entry.operation.replayed rt = some c.2 ∨
      (entry.operation.replayed rt = none ∧ c.2 = entry.operation.raw))

namespace Server

/-- A request to the server, or its stop and next start. -/
inductive LifeAction where
  | request (io : Io) (req : Request)
  /-- A graceful shutdown and the next start, with the clocks of its replay. -/
  | restart (clock : Nat → Nat) (lruOrder : List String)

/-- A server over its life; a start whose replay fails is no start, and leaves the files. -/
def lifeStep (rt : Runtime) (cfg : StoreConfig) (notify : Bool) (srv : Server) : LifeAction → Server
  | .request io req => srv.serve rt (io, req)
  | .restart clock lruOrder =>
      match replayWal rt (stamped clock srv.wal) (srv.store.loaded cfg lruOrder) with
      | .ok store => { srv with store := store.setKeyspaceNotificationsEnabled notify }
      | .error _ => srv

/-- A restart goes through and gives the values that were saved. -/
def RestoresSaved (rt : Runtime) (cfg : StoreConfig) (srv : Server) : LifeAction → Prop
  | .request _ _ => True
  | .restart clock lruOrder =>
      ∃ store, replayWal rt (stamped clock srv.wal) (srv.store.loaded cfg lruOrder) = .ok store ∧
        store.values = srv.store.values

/-- Every store call of the request is logged. -/
def WalLogged (rt : Runtime) (srv : Server) : LifeAction → Prop
  | .request io req => req.IsWrite ∧ ∀ e ∈ srv.effects rt io req, e.logged.isSome
  | .restart _ _ => True

/-! ## The condition -/

/-- What is asked of a run. A request logs no SET outside the limits and no text that decodes to
another value than the one put, and evicts nothing. At a restart every key is pinned by an entry of
the log or mild in it, and replay evicts nothing. -/
def Harmless (rt : Runtime) (cfg : StoreConfig) (srv : Server) : LifeAction → Prop
  | .request io req =>
      (∀ e ∈ srv.effects rt io req, e.Repeatable rt cfg) ∧
        srv.store.Fits (srv.store.growth (KvStore.allCells rt srv.store.config
          srv.store.inTransaction ((srv.effects rt io req).filterMap Effect.call)))
  | .restart clock lruOrder =>
      (∀ k, cfg.ValidKey k → Pinned rt cfg srv.wal k ∨ MildAt rt cfg srv.wal k) ∧
        (srv.store.loaded cfg lruOrder).Fits ((srv.store.loaded cfg lruOrder).growth
          (KvStore.allCells rt cfg false (replayCalls rt (stamped clock srv.wal))))

end Server

/-! ## Values, whatever the clocks and the notifications -/

theorem valueUpdates_append (c₁ c₂ : List (String × CellOp)) :
    valueUpdates (c₁ ++ c₂) = valueUpdates c₁ ++ valueUpdates c₂ := List.map_append

/-- The calls of replay act on values as the cells of the log do. -/
theorem valueUpdates_replayCalls (rt : Runtime) (cfg : StoreConfig)
    (entries : List (Nat × WalEntry)) :
    valueUpdates (KvStore.allCells rt cfg false (replayCalls rt entries))
      = valueUpdates (logCells rt cfg (entries.map Prod.snd)) := by
  induction entries with
  | nil => rfl
  | cons e entries ih =>
      obtain ⟨now, entry⟩ := e
      rw [List.map_cons, logCells, List.flatMap_cons, valueUpdates_append, ← logCells, ← ih,
        replayCalls, List.filterMap_cons, WalOperation.replayedCells]
      cases entry.operation.replayed rt with
      | none => rfl
      | some w =>
          simp only [Option.map_some, KvStore.allCells, List.flatMap_cons, valueUpdates_append]
          rw [valueUpdates_now rt cfg false now 0 w]
          rfl

theorem stamped_snd (clock : Nat → Nat) (wal : List WalEntry) :
    (stamped clock wal).map Prod.snd = wal := by
  exact List.ext_getElem (by simp [stamped]) (by simp [stamped])

theorem foldl_writeOpt (rt : Runtime) (entries : List (Nat × WalEntry)) :
    ∀ s : KvStore, entries.foldl (fun s e => s.writeOpt rt e.1 (e.2.operation.replayed rt)) s
      = s.writes rt (replayCalls rt entries) := by
  induction entries with
  | nil => intro s; rfl
  | cons e entries ih =>
      intro s
      rw [List.foldl_cons, ih]
      unfold replayCalls
      rw [List.filterMap_cons]
      cases e.2.operation.replayed rt <;> rfl

/-- Replay of a log that it can carry out, without an eviction: it goes through, and the values are what
the cells of the log make of those before. -/
theorem replayWal_values {rt : Runtime} {s : KvStore} {wal : List WalEntry} (clock : Nat → Nat)
    (hwal : ∀ entry ∈ wal, entry.operation.Replayable rt s.config ∧
      ∀ w, entry.operation.replayed rt = some w → w.Keyed)
    (htx : s.inTransaction = false)
    (hfits : s.Fits (s.growth (KvStore.allCells rt s.config s.inTransaction
      (replayCalls rt (stamped clock wal))))) :
    ∃ store, replayWal rt (stamped clock wal) s = .ok store ∧
      store.values = run (valueUpdates (logCells rt s.config wal)) s.values ∧
      store.config = s.config ∧ store.inTransaction = false := by
  have hreplay := @replayWal_eq rt (stamped clock wal) s fun e he => (hwal e.2 (mem_stamped he)).1
  rw [foldl_writeOpt] at hreplay
  have hcalls : ∀ c ∈ replayCalls rt (stamped clock wal), c.2.Keyed := by
    intro c hc
    obtain ⟨e, he, hmade⟩ := List.mem_filterMap.mp hc
    obtain ⟨w, hw, rfl⟩ := Option.map_eq_some_iff.mp hmade
    exact (hwal e.2 (mem_stamped he)).2 w hw
  have hmoves := KvStore.writes_refine rt _ s hcalls hfits
  refine ⟨_, hreplay, ?_, hmoves.config, hmoves.inTransaction.trans htx⟩
  rw [hmoves.values, htx, valueUpdates_replayCalls, stamped_snd]

/-! ## One request -/

/-- Effects that replay makes again or drops keep the invariant. -/
theorem Kept.effects {rt : Runtime} {cfg : StoreConfig} {effects : List Effect} :
    ∀ {wal : List WalEntry} {values : String → Option Value}, Kept rt cfg wal values →
      (∀ e ∈ effects, e.logged.isSome ∧ e.call.isSome ∧ e.Repeatable rt cfg) →
      Kept rt cfg (wal ++ effects.filterMap Effect.logged)
        (run (valueUpdates (KvStore.allCells rt cfg false (effects.filterMap Effect.call))) values) := by
  induction effects with
  | nil => intro wal values h _; rw [List.filterMap_nil, List.append_nil]; exact h
  | cons e effects ih =>
      intro wal values h hall
      obtain ⟨hlogged, hcall, hrepeat⟩ := hall e (by simp)
      obtain ⟨entry, hentry⟩ := Option.isSome_iff_exists.mp hlogged
      obtain ⟨⟨now, w⟩, hw⟩ := Option.isSome_iff_exists.mp hcall
      have hone : Kept rt cfg (wal ++ [entry])
          (run (valueUpdates (w.cells rt cfg false now)) values) := by
        rw [valueUpdates_now rt cfg false now 0 w]
        -- replay makes the call again, or drops a text that was put
        rcases (hrepeat entry (now, w) hentry hw).2 with hsame | ⟨hdropped, hraw⟩
        · exact h.replayed hsame
        · rw [show w = _ from hraw]
          exact h.dropped hdropped
      have hrest := ih hone fun e' he' => hall e' (List.mem_cons_of_mem _ he')
      rw [List.filterMap_cons_some hentry, List.filterMap_cons_some hw, KvStore.allCells,
        List.flatMap_cons, valueUpdates_append, run_append]
      rw [List.append_assoc, List.singleton_append] at hrest
      exact hrest

namespace Server

/-- The invariant of a server's life. -/
structure Living (rt : Runtime) (cfg : StoreConfig) (srv : Server) : Prop where
  config : ∃ notify, srv.store.config = { cfg with keyspaceNotificationsEnabled := notify }
  noTransaction : srv.store.inTransaction = false
  replayable : ∀ entry ∈ srv.wal, entry.operation.Replayable rt cfg ∧
    ∀ w, entry.operation.replayed rt = some w → w.Keyed
  kept : Kept rt cfg srv.wal srv.store.values

theorem Living.request {rt : Runtime} {cfg : StoreConfig} {notify : Bool} {srv : Server} {io : Io}
    {req : Request} (h : Living rt cfg srv) (hlogged : WalLogged rt srv (.request io req))
    (hharmless : Harmless rt cfg srv (.request io req)) :
    Living rt cfg (lifeStep rt cfg notify srv (.request io req)) := by
  obtain ⟨hwrite, hentries⟩ := hlogged
  obtain ⟨hrepeat, hfits⟩ := hharmless
  obtain ⟨b, hconfig⟩ := h.config
  have hkeyed := effects_keyed rt srv io req
  -- the request is its effects; with room for them they are their cells
  obtain ⟨hwal, hsettled⟩ := handle_performs rt srv io hwrite
  rw [foldl_onStore] at hsettled
  have hcalls : ∀ c ∈ (srv.effects rt io req).filterMap Effect.call, c.2.Keyed := by
    intro c hc
    obtain ⟨e, he, hcall⟩ := List.mem_filterMap.mp hc
    obtain ⟨c', hcall', hw⟩ := hkeyed e he
    rw [hcall] at hcall'
    cases hcall'
    exact hw
  have hmoves := KvStore.writes_refine rt _ srv.store hcalls hfits
  have hcells : KvStore.allCells rt srv.store.config srv.store.inTransaction
      ((srv.effects rt io req).filterMap Effect.call)
        = KvStore.allCells rt cfg false ((srv.effects rt io req).filterMap Effect.call) := by
    have hcongr := @cells_congr rt cfg { cfg with keyspaceNotificationsEnabled := b } rfl rfl false
    simp only [KvStore.allCells, hconfig, h.noTransaction, hcongr]
  have hstep : lifeStep rt cfg notify srv (.request io req) = (srv.handle rt io req).2 := rfl
  rw [hstep]
  refine ⟨⟨b, ?_⟩, ?_, ?_, ?_⟩
  · rw [hsettled.config, hmoves.config, hconfig]
  · rw [hsettled.inTransaction, hmoves.inTransaction, h.noTransaction]
  · intro entry hentry
    rw [hwal] at hentry
    rcases List.mem_append.mp hentry with hold | hnew
    · exact h.replayable entry hold
    · obtain ⟨e, he, hlog⟩ := List.mem_filterMap.mp hnew
      obtain ⟨c, hcall, hw⟩ := hkeyed e he
      obtain ⟨hreplayable, hecho⟩ := hrepeat e he entry c hlog hcall
      refine ⟨hreplayable, fun w' hw' => ?_⟩
      rcases hecho with hsame | ⟨hnone, -⟩
      · rw [hsame] at hw'
        cases hw'
        exact hw
      · rw [hnone] at hw'
        cases hw'
  · have hvalues : (srv.handle rt io req).2.store.values
        = run (valueUpdates (KvStore.allCells rt cfg false
            ((srv.effects rt io req).filterMap Effect.call))) srv.store.values := by
      rw [← hcells, ← hmoves.values]
      funext k
      simp only [KvStore.values, hsettled.contents]
    rw [hwal, hvalues]
    exact h.kept.effects fun e he => ⟨hentries e he, by
      obtain ⟨c, hcall, -⟩ := hkeyed e he
      rw [hcall]
      rfl, hrepeat e he⟩

/-! ## One restart -/

/-- The start gives the saved values, and nothing else of the invariant reads the store. -/
theorem Living.restart {rt : Runtime} {cfg : StoreConfig} {srv : Server} {clock : Nat → Nat}
    {lruOrder : List String} (h : Living rt cfg srv)
    (hharmless : Harmless rt cfg srv (.restart clock lruOrder)) :
    ∃ store, replayWal rt (stamped clock srv.wal) (srv.store.loaded cfg lruOrder) = .ok store ∧
      store.values = srv.store.values ∧ store.config = cfg ∧ store.inTransaction = false := by
  obtain ⟨hkeys, hfits⟩ := hharmless
  obtain ⟨store, hreplay, hvalues, hconfig, htx⟩ :=
    @replayWal_values rt (srv.store.loaded cfg lruOrder) srv.wal clock h.replayable rfl hfits
  exact ⟨store, hreplay, hvalues.trans (h.kept.again hkeys), hconfig, htx⟩

theorem Living.step {rt : Runtime} {cfg : StoreConfig} {notify : Bool} {srv : Server}
    {a : LifeAction} (h : Living rt cfg srv) (hlogged : WalLogged rt srv a)
    (hharmless : Harmless rt cfg srv a) : Living rt cfg (lifeStep rt cfg notify srv a) := by
  cases a with
  | request io req => exact h.request hlogged hharmless
  | restart clock lruOrder =>
      obtain ⟨store, hreplay, hvalues, hconfig, htx⟩ := h.restart hharmless
      simp only [lifeStep, hreplay]
      refine ⟨⟨notify, ?_⟩, htx, h.replayable, ?_⟩
      · simp only [KvStore.setKeyspaceNotificationsEnabled, hconfig]
      · have hsame : (store.setKeyspaceNotificationsEnabled notify).values = srv.store.values := hvalues
        rw [hsame]
        exact h.kept

/-- Before anything is logged there is nothing to keep. -/
theorem living_fresh (rt : Runtime) (cfg : StoreConfig) (runtime : Option ApiRuntimeConfig)
    (notify : Bool) : Living rt cfg (fresh cfg runtime notify) := by
  have hnone : ∀ k, (fresh cfg runtime notify).store.values k = none := fun k => by
    show (((∅ : Entries)[k]?).map ValueWithTTL.value) = none
    simp
  refine ⟨⟨notify, rfl⟩, rfl, fun entry hentry => (by cases hentry), ?_⟩
  refine ⟨?_, fun k _ => ⟨.inr (.inl (hnone k)), rfl⟩, fun k _ => ⟨hnone k, rfl⟩⟩
  rintro k ⟨before, entry, after, hwal, -⟩
  exact absurd hwal.symm (by simp [fresh])

end Server

end Daikon
