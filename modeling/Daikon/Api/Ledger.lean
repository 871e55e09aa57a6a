/-
# Daikon.Api.Ledger -- no keyspace event is lost, sent twice or overtaken

Events wait in the queue of the store until a handler, or a tick of the background clean-up, publishes all
that is there. Some handlers leave theirs behind, and a tick that removes nothing publishes nothing. Still
what was published and what waits are together all events, in their order; the one way to lose some is a
recovery, which puts another store in place while events wait in the old one (`events_conserved_iff`).

The ledger is a list of messages: those that were sent, and behind them those of the events in the queue. A
handler that publishes moves the boundary, one that does not adds to the second part, and neither changes
what the list is except at its end (`Ends.ledger`). So the step lemma says that the ledger grows by what the
action emitted, or that the action is a recovery that comes through while events wait.

The equivalence is over whole runs. `Recovers` keeps the recovery handlers honest, since their argument is
the result of the recovery: what they put in place is what the snapshots and the log give. A background tick
is an action of its own, with its clock.
-/
import Daikon.Api.Announced

namespace Daikon

open Lib.Run (Always Guarded always_iff_guarded guarded_true)

/-! ## The background clean-up -/

/-- A tick of the clean-up in `main`; it publishes if it has removed something. -/
def App.ttlTick (app : App) (now : Nat) : App :=
  let r := app.server.store.cleanupExpired now
  let cleaned := { app.server with store := r.2 }
  let server := if r.1 > 0 then cleaned.publishKeyspaceEvents else cleaned
  { app with
    server
    pubsub := App.publishAll now (server.published.drop app.server.published.length) app.pubsub }

/-- What the server does next. -/
inductive ServerAction where
  | request (io : AppIo) (req : HttpRequest)
  | ttlTick (now : Nat)

namespace KvStore

theorem removeAll_emits (now : Nat) (keys : List String) : ∀ s : KvStore,
    Emits s (keys.foldl (removeExpired now) s) (s.config.keyspaceNotificationsEnabled = true ∧ keys ≠ []) := by
  induction keys with
  | nil => exact fun s => (Emits.silent rfl).congr (by simp)
  | cons key keys ih =>
      intro s
      have hfirst : Emits s (removeExpired now s key) (s.config.keyspaceNotificationsEnabled = true) :=
        emitKeyspaceEvent_emits { s with store := s.store.erase key } now .expired key
      have hconfig : (removeExpired now s key).config = s.config := removeAll_config now [key] s
      have hrest := ih (removeExpired now s key)
      rw [hconfig] at hrest
      refine (hfirst.trans hrest).congr ?_
      simp only [ne_eq, List.cons_ne_nil, not_false_eq_true, and_true, or_iff_left_iff_imp]
      exact And.left

/-- A clean-up reports exactly where it removes something. -/
theorem cleanupExpired_emits (s : KvStore) (now : Nat) : Emits s (s.cleanupExpired now).2
    (s.config.keyspaceNotificationsEnabled = true ∧ s.dueKeys now ≠ []) :=
  removeAll_emits now (s.dueKeys now) s

end KvStore

/-! ## What was sent and what waits -/

namespace Server

/-- The messages sent, and behind them those of the events in the queue. -/
def ledger (srv : Server) : List (String × String) :=
  srv.published ++ srv.store.pendingKeyspaceEvents.flatMap KeyspaceEvent.messages

/-- However a handler ends, it keeps the ledger of its store calls. -/
theorem Ends.ledger {srv after : Server} {publishes : Bool} {called : KvStore}
    (h : Ends srv publishes called after) :
    after.ledger = srv.published ++ called.pendingKeyspaceEvents.flatMap KeyspaceEvent.messages := by
  cases h with
  | announced h =>
      rw [Server.ledger, h.store, h.published]
      exact List.append_nil _
  | left h => rw [Server.ledger, h.store, h.published]

theorem publishKeyspaceEvents_ledger (srv : Server) : srv.publishKeyspaceEvents.ledger = srv.ledger :=
  List.append_nil _

end Server

/-- The request puts a recovered store in place. -/
def Request.replaces : Request → Bool
  | pitrRecoverToTimestamp _ (.ok _) | pitrRecoverLatestSnapshot (.ok _) => true
  | _ => false

/-- The store calls of any other request leave what waits in front. -/
theorem Server.called_pending {rt : Runtime} (srv : Server) (io : Io) {req : Request}
    (h : requireApiKey io.headers srv.runtime = none → req.replaces = false) :
    srv.store.pendingKeyspaceEvents <+: (srv.called rt io req).pendingKeyspaceEvents := by
  have hemits : ∀ {t : KvStore} {C : Prop}, srv.store.Emits t C →
      srv.store.pendingKeyspaceEvents <+: t.pendingKeyspaceEvents := fun ⟨new, hnew, _⟩ => ⟨new, hnew.symm⟩
  unfold called
  cases hkey : requireApiKey io.headers srv.runtime with
  | some refusal => exact List.prefix_rfl
  | none =>
      have hreplaces := h hkey
      by_cases hwrite : req.IsWrite
      · simp only [dispatchCalled_write srv io hwrite]
        exact hemits (KvStore.writes_emit rt _ srv.store)
      · cases req with
        | cleanupExpired => exact hemits (srv.store.cleanupExpired_emits (io.now 0))
        | exec =>
            rw [← KvStore.exec_pending srv.store]
            exact List.prefix_rfl
        | multi =>
            simp only [dispatchCalled, KvStore.multi]
            split <;> exact List.prefix_rfl
        | discard =>
            simp only [dispatchCalled, KvStore.discard]
            split <;> exact List.prefix_rfl
        | hllPfadd key values =>
            simp only [dispatchCalled, KvStore.pfadd_pending]
            exact List.prefix_rfl
        | hllPfreserve key precision =>
            simp only [dispatchCalled, KvStore.pfreserve_pending]
            exact List.prefix_rfl
        | hllPfmerge destination sources =>
            simp only [dispatchCalled, KvStore.pfmerge_pending]
            exact List.prefix_rfl
        | setKeyspaceConfig enabled => exact List.prefix_rfl
        | pitrRecoverToTimestamp target recovered =>
            cases recovered with
            | error e => exact List.prefix_rfl
            | ok store => cases hreplaces
        | pitrRecoverLatestSnapshot recovered =>
            cases recovered with
            | error e => exact List.prefix_rfl
            | ok store => cases hreplaces
        | _ => exact absurd trivial hwrite

/-! ## Runs -/

namespace ServerAction

variable (rt : Runtime) (c : SnapshotCodec)

/-- The events that an action emits. -/
def emitted (app : App) : ServerAction → List KeyspaceEvent
  | request io req => app.emitted rt io req
  | ttlTick now => (app.server.store.cleanupExpired now).2.pendingKeyspaceEvents.drop
      app.server.store.pendingKeyspaceEvents.length

/-- An action of a run, and the events emitted so far. -/
def observe (o : App × List KeyspaceEvent) (a : ServerAction) : App × List KeyspaceEvent :=
  (match a with
    | request io req => (o.1.handle rt c io req).2
    | ttlTick now => o.1.ttlTick now,
    o.2 ++ a.emitted rt o.1)

/-- A recovery that comes through finds nothing in the queue. -/
def DropsNothing (o : App × List KeyspaceEvent) : ServerAction → Prop
  | request io (.write req) => requireApiKey io.headers o.1.server.runtime = none → req.replaces = true →
      o.1.server.store.pendingKeyspaceEvents = []
  | _ => True

/-- What a recovery puts in place is what the snapshots and the log give. -/
def Recovers : ServerAction → Prop
  | request _ req => req.Recovers rt c
  | ttlTick _ => True

end ServerAction

open ServerAction (observe DropsNothing)

/-- What was sent and what waits is what was there before and all that was emitted since. -/
def Conserved (before : List (String × String)) (o : App × List KeyspaceEvent) : Prop :=
  o.1.server.ledger = before ++ o.2.flatMap KeyspaceEvent.messages

variable {rt : Runtime} {c : SnapshotCodec} {before : List (String × String)}

/-- Events that joined the queue joined the ledger. -/
theorem ledger_of_prefix {srv : Server} {queue : List KeyspaceEvent}
    (h : srv.store.pendingKeyspaceEvents <+: queue) :
    srv.published ++ queue.flatMap KeyspaceEvent.messages
      = srv.ledger ++ (queue.drop srv.store.pendingKeyspaceEvents.length).flatMap KeyspaceEvent.messages := by
  obtain ⟨new, rfl⟩ := h
  rw [List.drop_left, Server.ledger, List.flatMap_append, List.append_assoc]

theorem App.ttlTick_ledger (app : App) (now : Nat) : (app.ttlTick now).server.ledger
    = app.server.ledger ++ ((ServerAction.ttlTick now).emitted rt app).flatMap KeyspaceEvent.messages := by
  obtain ⟨new, hnew, -⟩ := app.server.store.cleanupExpired_emits now
  rw [ServerAction.emitted, ← ledger_of_prefix ⟨new, hnew.symm⟩]
  unfold ttlTick
  simp only
  split
  · rw [Server.publishKeyspaceEvents_ledger]
    rfl
  · rfl

/-- The queue that the store calls of a request make, unless it replaces the store. -/
theorem App.called_pending {app : App} {io : AppIo} {req : HttpRequest}
    (h : ∀ r, req = .write r → requireApiKey io.headers app.server.runtime = none → r.replaces = false) :
    app.server.store.pendingKeyspaceEvents <+: (app.called rt io req).pendingKeyspaceEvents := by
  cases req with
  | write req => exact Server.called_pending app.server io.toIo (h req rfl)
  | replicationSync =>
      obtain ⟨new, hnew, -⟩ := KvStore.writes_emit rt (app.syncCalls rt io) app.server.store
      exact ⟨new, hnew.symm⟩
  | _ => exact List.prefix_rfl

theorem App.request_ledger {app : App} {io : AppIo} {req : HttpRequest}
    (h : ∀ r, req = .write r → requireApiKey io.headers app.server.runtime = none → r.replaces = false) :
    (app.handle rt c io req).2.server.ledger
      = app.server.ledger ++ (app.emitted rt io req).flatMap KeyspaceEvent.messages := by
  rw [(App.handle_ends rt app io c req).ledger, App.emitted]
  exact ledger_of_prefix (App.called_pending h)

/-- A store that was recovered has nothing in its queue. -/
theorem App.called_recovered {app : App} {io : AppIo} {req : Request}
    (hkey : requireApiKey io.headers app.server.runtime = none) (hreplaces : req.replaces = true)
    (hrecovers : (HttpRequest.write req).Recovers rt c) :
    (app.called rt io (.write req)).pendingKeyspaceEvents = [] := by
  simp only [called, Server.called, hkey]
  cases req with
  | pitrRecoverToTimestamp target recovered =>
      cases recovered with
      | error e => cases hreplaces
      | ok store =>
          obtain ⟨disk, hstore⟩ := hrecovers
          exact Pitr.recoverToTimestamp_pending hstore.symm
  | pitrRecoverLatestSnapshot recovered =>
      cases recovered with
      | error e => cases hreplaces
      | ok store =>
          obtain ⟨disk, hstore⟩ := hrecovers
          exact Pitr.recoverToLatestSnapshot_pending hstore.symm
  | _ => cases hreplaces

theorem messages_ne_nil {events : List KeyspaceEvent} (h : events ≠ []) :
    events.flatMap KeyspaceEvent.messages ≠ [] := by
  obtain ⟨event, rest, rfl⟩ := List.exists_cons_of_ne_nil h
  simp [KeyspaceEvent.messages]

/-- One action keeps the ledger, or it is a recovery that finds events in the queue and loses them. -/
theorem conserved_step {o : App × List KeyspaceEvent} {a : ServerAction} (h : Conserved before o)
    (hrecovers : a.Recovers rt c) : Conserved before (observe rt c o a) ↔ DropsNothing o a := by
  obtain ⟨app, events⟩ := o
  have hkept : ∀ after : App, after.server.ledger
      = app.server.ledger ++ (a.emitted rt app).flatMap KeyspaceEvent.messages →
        Conserved before (after, events ++ a.emitted rt app) := by
    intro after hafter
    rw [Conserved, hafter, List.flatMap_append, ← List.append_assoc]
    exact congrArg (· ++ _) h
  cases a with
  | ttlTick now => exact iff_of_true (hkept _ (app.ttlTick_ledger now)) trivial
  | request io req =>
      by_cases hreplaced : ∃ r, req = .write r ∧ requireApiKey io.headers app.server.runtime = none ∧
          r.replaces = true
      · obtain ⟨r, rfl, hkey, hreplaces⟩ := hreplaced
        have hcalled := App.called_recovered hkey hreplaces hrecovers
        have hledger : (app.handle rt c io (.write r)).2.server.ledger = app.server.published := by
          rw [(App.handle_ends rt app io c (.write r)).ledger, hcalled]
          exact List.append_nil _
        have hemitted : (ServerAction.request io (.write r)).emitted rt app = [] := by
          rw [ServerAction.emitted, App.emitted, hcalled, List.drop_nil]
        have hbefore : app.server.ledger = before ++ events.flatMap KeyspaceEvent.messages := h
        simp only [Conserved, observe, hledger, hemitted, List.append_nil, ← hbefore, DropsNothing]
        constructor
        · intro hsame _ _
          by_contra hwaits
          refine messages_ne_nil hwaits ?_
          exact List.append_right_eq_self.mp hsame.symm
        · intro hnone
          rw [Server.ledger, hnone hkey hreplaces]
          exact (List.append_nil _).symm
      · have hother : ∀ r, req = .write r → requireApiKey io.headers app.server.runtime = none →
            r.replaces = false := fun r hr hkey =>
          Bool.eq_false_iff.mpr fun hreplaces => hreplaced ⟨r, hr, hkey, hreplaces⟩
        refine iff_of_true (hkept _ (App.request_ledger hother)) ?_
        cases req with
        | write r => exact fun hkey hreplaces => absurd ⟨r, rfl, hkey, hreplaces⟩ hreplaced
        | _ => trivial

/-- In every run of requests and ticks of the clean-up: what was published and what waits in the queue are
together all events that were emitted, each once and in their order, exactly as long as no recovery comes
through while events wait. -/
theorem events_conserved_iff (rt : Runtime) (c : SnapshotCodec) (app : App) (actions : List ServerAction)
    (hrecovers : ∀ a ∈ actions, a.Recovers rt c) :
    Always (observe rt c) (Conserved app.server.ledger) (app, []) actions ↔
      Guarded (observe rt c) DropsNothing (app, []) actions :=
  always_iff_guarded
    (fun _ _ hinv ha hkeeps => (conserved_step hinv ha.2).mpr hkeeps) (fun _ h => h)
    (fun _ _ hinv ha hdrops hafter => hdrops ((conserved_step hinv ha.2).mp hafter))
    (List.append_nil _).symm (guarded_true.and_forall hrecovers)

/-- An append that leaves its event, and a tick that publishes nothing. -/
theorem events_conserved_iff_append :
    Always (observe .strings (.plain [])) (Conserved []) (notifyingApp, [])
      [.request { toIo := .healthy 5 } (.write (.appendValue "k" "v")), .ttlTick 9] :=
  (events_conserved_iff .strings (.plain []) notifyingApp _ (by simp [ServerAction.Recovers,
    HttpRequest.Recovers])).mpr ⟨(fun _ h => nomatch h), trivial, trivial⟩

end Daikon
