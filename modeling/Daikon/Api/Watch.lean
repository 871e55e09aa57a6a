/-
# Daikon.Api.Watch -- a client that watches a key

A client that subscribes to the channel of a key and polls is told the events of that key. On their way
they wait in the queue of the store, then in the queue of the client. None is lost, repeated or overtaken,
whatever the other clients do, exactly if the watcher polls before its queue is full
(`watcher_is_told_iff`).

This is a statement about the composition of two queues. `telling` is the whole of what is on its way to the
watcher and what it was told before: its polls, its queue, and the events in the store's queue that are of
its key. An action adds to the end of this list what it emits (`telling_step`), and a publish moves the
boundary between two parts of it.

The one place where something is lost is the queue of the watcher, which is bounded; so `HasRoom` asks
before each action that what it publishes on the channel finds room. `Undisturbed` excludes a recovery that
drops events, messages that clients send on the channel themselves, and calls on the watcher's subscription.
Only the channel of the key is watched, not that of the event.
-/
import Daikon.Api.Ledger
import Daikon.Api.Mailboxes

namespace Daikon

open Lib.Run (Always Guarded always_iff_guarded)
open ServerAction (observe DropsNothing)

/-- The channel of the events of a key. -/
def keyspaceChannel (key : String) : String := "__keyspace__:" ++ key

/-- The texts sent on a channel. -/
def messagesOn (channel : String) (messages : List (String × String)) : List String :=
  (messages.filter fun m => m.1 = channel).map Prod.snd

/-- What a watcher of the key is told of the events. -/
def eventsAt (key : String) (events : List KeyspaceEvent) : List String :=
  (events.filter fun event => event.key = key).map (·.kind.toString)

theorem messagesOn_append (channel : String) (m₁ m₂ : List (String × String)) :
    messagesOn channel (m₁ ++ m₂) = messagesOn channel m₁ ++ messagesOn channel m₂ := by
  rw [messagesOn, List.filter_append, List.map_append]
  rfl

theorem keyspaceChannel_ne_empty (key : String) : keyspaceChannel key ≠ "" := by
  intro h
  have hlength := congrArg String.length h
  simp [keyspaceChannel, String.length_append] at hlength

theorem messagesOn_event (key : String) (event : KeyspaceEvent) :
    messagesOn (keyspaceChannel key) event.messages
      = if event.key = key then [event.kind.toString] else [] := by
  have hkind : "__keyevent__:" ++ event.kind.toString ≠ keyspaceChannel key := by
    intro h
    have htext := congrArg String.toList h
    simp [keyspaceChannel, String.toList_append] at htext
  have hkey : "__keyspace__:" ++ event.key = keyspaceChannel key ↔ event.key = key := by
    refine ⟨fun h => ?_, fun h => by rw [h]; rfl⟩
    have htext := congrArg String.toList h
    simp only [keyspaceChannel, String.toList_append, List.append_cancel_left_eq] at htext
    exact String.toList_injective htext
  rw [messagesOn, KeyspaceEvent.messages, List.filter_cons_of_neg (by simpa using hkind)]
  by_cases h : event.key = key
  · rw [List.filter_cons_of_pos (by simpa using hkey.mpr h), if_pos h]
    rfl
  · rw [List.filter_cons_of_neg (by simpa using mt hkey.mp h), if_neg h]
    rfl

/-- On the channel of a key there are the events of that key and no others. -/
theorem messagesOn_events (key : String) (events : List KeyspaceEvent) :
    messagesOn (keyspaceChannel key) (events.flatMap KeyspaceEvent.messages) = eventsAt key events := by
  induction events with
  | nil => rfl
  | cons event events ih =>
      rw [List.flatMap_cons, messagesOn_append, ih, messagesOn_event]
      by_cases h : event.key = key <;> simp [eventsAt, h]

/-! ## The queue of the watcher -/

/-- The call is no subscription of the watcher, and no message of a client on the channel. -/
def PubSubOp.LeavesAlone (id channel : String) : PubSubOp → Prop
  | .subscribe _ i => i ≠ id
  | .unsubscribe c i => ¬ (c = channel ∧ i = id)
  | .publish _ c _ => c ≠ channel
  | .pollMessages _ _ => True

/-- The subscriber is in the list of the channel once and in no other, and its queue is in bounds. -/
structure PubSub.Watches (p : PubSub) (id channel : String) : Prop where
  count : ∀ c, (p.listSubscribers c).count id = if c = channel then 1 else 0
  queued : id ∈ p.subscribers
  max_pos : 0 < p.maxMessagesPerSubscriber
  bounded : (p.queue id).length ≤ p.maxMessagesPerSubscriber

namespace PubSub

variable {p : PubSub} {id channel : String}

theorem step_max (p : PubSub) (op : PubSubOp) :
    (p.step op).maxMessagesPerSubscriber = p.maxMessagesPerSubscriber := mailStep_max p (.call op)

theorem length_receive {α : Type*} {max : Nat} {msg : α} {messages : List α} (hpos : 0 < max)
    (h : messages.length ≤ max) : (receive max msg messages).length ≤ max := by
  unfold receive
  rw [List.length_append, List.length_singleton]
  split
  · rw [List.length_drop]
    omega
  · omega

/-- A message on the channel joins the queue, and one on another does not. -/
theorem Watches.queue_publish (h : p.Watches id channel) (now : Nat) {c message : String} (hc : c ≠ "") :
    (p.publish now c message).2.queue id = if c = channel then
      receive p.maxMessagesPerSubscriber ⟨c, message, now⟩ (p.queue id) else p.queue id := by
  obtain ⟨messages, hmessages⟩ := Option.ne_none_iff_exists'.mp (mem_subscribers_iff.mp h.queued)
  have hqueue := publish_queue p now message id hc
  rw [h.count, hmessages] at hqueue
  rw [queue, hqueue, queue, hmessages]
  split <;> rfl

theorem Watches.step (h : p.Watches id channel) (op : PubSubOp)
    (hcount : ∀ c, recount c id (if c = channel then 1 else 0) op = if c = channel then 1 else 0)
    (hbounded : ((p.step op).queue id).length ≤ p.maxMessagesPerSubscriber) :
    (p.step op).Watches id channel where
  count c := by rw [step_count, h.count, hcount]
  queued := mem_subscribers_step h.queued op
  max_pos := by rw [step_max]; exact h.max_pos
  bounded := by rw [step_max]; exact hbounded

theorem Watches.publish (h : p.Watches id channel) (now : Nat) (c message : String) :
    (p.publish now c message).2.Watches id channel := by
  refine h.step (.publish now c message) (fun _ => rfl) ?_
  by_cases hc : c = ""
  · simp only [PubSub.step, PubSub.publish, if_pos hc]
    exact h.bounded
  · rw [PubSub.step, h.queue_publish now hc]
    split
    · exact length_receive h.max_pos h.bounded
    · exact h.bounded

theorem Watches.publishAll (now : Nat) (messages : List (String × String)) : ∀ {p : PubSub},
    p.Watches id channel → (App.publishAll now messages p).Watches id channel := by
  induction messages with
  | nil => exact fun h => h
  | cons m messages ih => exact fun h => ih (h.publish now m.1 m.2)

theorem publishAll_max (now : Nat) (messages : List (String × String)) : ∀ p : PubSub,
    (App.publishAll now messages p).maxMessagesPerSubscriber = p.maxMessagesPerSubscriber := by
  induction messages with
  | nil => exact fun p => rfl
  | cons m messages ih => exact fun p => (ih _).trans (step_max p (.publish now m.1 m.2))

/-- Where there is room, the messages on the channel join the queue in order. -/
theorem Watches.publishAll_queue (hchannel : channel ≠ "") (now : Nat)
    (messages : List (String × String)) : ∀ {p : PubSub}, p.Watches id channel →
      (p.queue id).length + (messagesOn channel messages).length ≤ p.maxMessagesPerSubscriber →
      ((App.publishAll now messages p).queue id).map (·.message)
        = (p.queue id).map (·.message) ++ messagesOn channel messages := by
  induction messages with
  | nil => exact fun _ _ => (List.append_nil _).symm
  | cons m messages ih =>
      intro p h hroom
      have hsplit : messagesOn channel (m :: messages)
          = (if m.1 = channel then [m.2] else []) ++ messagesOn channel messages := by
        by_cases hm : m.1 = channel <;> simp [messagesOn, hm]
      rw [hsplit, List.length_append] at hroom
      have hqueue : (p.publish now m.1 m.2).2.queue id
          = p.queue id ++ if m.1 = channel then [⟨m.1, m.2, now⟩] else [] := by
        by_cases hempty : m.1 = ""
        · rw [if_neg fun hm => hchannel (hm.symm.trans hempty), List.append_nil, PubSub.publish,
            if_pos hempty]
        · rw [h.queue_publish now hempty]
          split
          · next hm =>
              have hshort : ¬ (p.queue id).length ≥ p.maxMessagesPerSubscriber := by
                rw [if_pos hm, List.length_singleton] at hroom
                omega
              rw [receive, if_neg hshort]
          · exact (List.append_nil _).symm
      have hrest : ((p.publish now m.1 m.2).2.queue id).length + (messagesOn channel messages).length
          ≤ (p.publish now m.1 m.2).2.maxMessagesPerSubscriber := by
        rw [show (p.publish now m.1 m.2).2.maxMessagesPerSubscriber = p.maxMessagesPerSubscriber from
          step_max p (.publish now m.1 m.2), hqueue, List.length_append]
        refine le_trans (le_of_eq ?_) hroom
        split <;> simp [Nat.add_assoc]
      show ((App.publishAll now messages (p.publish now m.1 m.2).2).queue id).map (·.message) = _
      rw [ih (h.publish now m.1 m.2) hrest, hqueue, hsplit, List.map_append, List.append_assoc]
      split <;> rfl

/-- A call of a client that leaves the watcher alone changes its queue by what it polls. -/
theorem Watches.call (h : p.Watches id channel) {op : PubSubOp} (hop : op.LeavesAlone id channel) :
    (p.step op).Watches id channel ∧
      p.answerOf id (.call op) ++ (p.step op).queue id = p.queue id := by
  have hqueue : p.answerOf id (.call op) ++ (p.step op).queue id = p.queue id := by
    cases op with
    | subscribe c i => exact Broadcast.subscribe_queue p c i id
    | unsubscribe c i => exact Broadcast.unsubscribe_queue p c i id
    | publish now c message =>
        by_cases hc : c = ""
        · simp only [answerOf, PubSub.step, PubSub.publish, if_pos hc]
          rfl
        · simp only [answerOf, PubSub.step, h.queue_publish now hc]
          rw [if_neg hop]
          rfl
    | pollMessages i limit =>
        simp only [answerOf, PubSub.step]
        split
        · next hi => rw [← hi]; exact pollMessages_append p i limit
        · next hi =>
            rw [Broadcast.pollMessages_queue, if_neg fun heq => hi heq.symm]
            rfl
  refine ⟨h.step op (fun c => ?_) ?_, hqueue⟩
  · cases op with
    | subscribe c' i => exact if_neg fun hc => hop hc.2.1
    | unsubscribe c' i =>
        simp only [recount]
        split
        · next hc =>
            rw [if_neg]
            rintro rfl
            exact hop hc
        · rfl
    | publish now c' message | pollMessages i limit => rfl
  · have hlength := congrArg List.length hqueue
    rw [List.length_append] at hlength
    exact le_trans (by omega) h.bounded

end PubSub

/-! ## One action -/

variable {rt : Runtime} {c : SnapshotCodec}

/-- The call of a request on channels and queues. -/
def HttpRequest.pubsubOp (io : AppIo) : HttpRequest → Option PubSubOp
  | .pubsubSubscribe channel => some (.subscribe channel io.subscriberId)
  | .pubsubUnsubscribe channel subscriberId => some (.unsubscribe channel subscriberId)
  | .pubsubPublish channel message => some (.publish (io.now 0) channel message)
  | .pubsubPollMessages subscriberId limit => some (.pollMessages subscriberId (App.pollLimit limit))
  | _ => none

/-- The messages that an action publishes. -/
def ServerAction.publishedBy (rt : Runtime) (c : SnapshotCodec) (app : App) (a : ServerAction) :
    List (String × String) :=
  (observe rt c (app, []) a).1.server.published.drop app.server.published.length

/-- What an action publishes and what waits after it are what waited before it and what it emits. -/
theorem publishedBy_waiting {app : App} {a : ServerAction} (hdrops : DropsNothing (app, []) a)
    (hrecovers : a.Recovers rt c) :
    a.publishedBy rt c app
        ++ (observe rt c (app, []) a).1.server.store.pendingKeyspaceEvents.flatMap KeyspaceEvent.messages
      = app.server.store.pendingKeyspaceEvents.flatMap KeyspaceEvent.messages
        ++ (a.emitted rt app).flatMap KeyspaceEvent.messages := by
  have hstart : Conserved app.server.ledger (app, []) := (List.append_nil _).symm
  have hledger : (observe rt c (app, []) a).1.server.ledger
      = app.server.ledger ++ (a.emitted rt app).flatMap KeyspaceEvent.messages :=
    (conserved_step hstart hrecovers).mpr hdrops
  have hpublished : ∃ new, (observe rt c (app, []) a).1.server.published = app.server.published ++ new := by
    cases a with
    | ttlTick now =>
        simp only [observe, App.ttlTick]
        split
        · exact ⟨_, rfl⟩
        · exact ⟨[], (List.append_nil _).symm⟩
    | request io req =>
        cases App.handle_ends rt app io c req with
        | announced h => exact ⟨_, h.published⟩
        | left h => exact ⟨[], h.published.trans (List.append_nil _).symm⟩
  obtain ⟨new, hnew⟩ := hpublished
  rw [Server.ledger, Server.ledger, hnew, List.append_assoc, List.append_assoc] at hledger
  rw [ServerAction.publishedBy, hnew, List.drop_left]
  exact List.append_cancel_left hledger

/-- A request that is no write and no call on channels and queues leaves them alone. -/
theorem App.handle_pubsub (c : SnapshotCodec) {app : App} {io : AppIo} {req : HttpRequest}
    (hwrite : ∀ r, req ≠ .write r) (hop : req.pubsubOp io = none) :
    (app.handle rt c io req).2.pubsub = app.pubsub := by
  have hguarded : ∀ handler : Response × App, handler.2.pubsub = app.pubsub →
      (app.guarded io handler).2.pubsub = app.pubsub := by
    intro handler h
    unfold guarded
    split
    · rfl
    · exact h
  cases req with
  | write req => exact absurd rfl (hwrite req)
  | pubsubSubscribe _ | pubsubUnsubscribe _ _ | pubsubPublish _ _ | pubsubPollMessages _ _ => cases hop
  | pitrCreateSnapshot => exact hguarded _ (by simp only; split <;> rfl)
  | pitrCleanupOldSnapshots maxAgeSecs => exact hguarded _ (by simp only; split <;> rfl)
  | replicationHeartbeat replicaId lastAppliedIndex =>
      unfold handle replicationHeartbeat
      cases app.master with
      | none => rfl
      | some master =>
          simp only
          split
          · split <;> rfl
          · rfl
  | replicationGetWal fromIndex limit =>
      simp only [handle, replicationGetWal_snd]
  | replicationListReplicas =>
      unfold handle replicationListReplicas
      cases app.master <;> rfl
  | replicationSync =>
      unfold handle replicationSync
      cases app.replica with
      | none => rfl
      | some node =>
          simp only
          split <;> rfl
  | replicationStatus =>
      unfold handle replicationStatus
      cases app.replica <;> rfl
  | listLrange _ _ _ | listLlen _ | hashHget _ _ | hashHmget _ _ | hashHgetall _ | hashHkeys _
  | hashHvals _ | hashHlen _ | hashHexists _ _ | getKeyspaceConfig => exact hguarded _ rfl
  | _ => rfl

/-- A request that is no write publishes nothing. -/
theorem App.handle_published (c : SnapshotCodec) {app : App} {io : AppIo} {req : HttpRequest}
    (hwrite : ∀ r, req ≠ .write r) :
    (ServerAction.request io req).publishedBy rt c app = [] := by
  have hends := App.handle_ends rt app io c req
  have hpublishes : req.publishes = false := by
    cases req with
    | write req => exact absurd rfl (hwrite req)
    | _ => rfl
  rw [hpublishes] at hends
  cases hends with
  | announced h htrue => cases htrue
  | left h =>
      have hsame : (ServerAction.observe rt c (app, []) (.request io req)).1.server.published
          = app.server.published := h.published
      rw [ServerAction.publishedBy, hsame, List.drop_length]

/-- A call on channels and queues does what it says, or nothing if its key is refused. -/
theorem App.handle_pubsubOp (rt : Runtime) (c : SnapshotCodec) (app : App) {io : AppIo} {req : HttpRequest}
    {op : PubSubOp} (hop : req.pubsubOp io = some op) :
    ((app.handle rt c io req).2.pubsub = app.pubsub.step op ∨
      (app.handle rt c io req).2.pubsub = app.pubsub ∧ ∀ id limit, op ≠ .pollMessages id limit) ∧
    (app.handle rt c io req).2.server = app.server := by
  have hguarded : ∀ handler : Response × App, handler.2.pubsub = app.pubsub.step op →
      (∀ id limit, op ≠ .pollMessages id limit) →
      (app.guarded io handler).2.pubsub = app.pubsub.step op ∨
        (app.guarded io handler).2.pubsub = app.pubsub ∧ ∀ id limit, op ≠ .pollMessages id limit := by
    intro handler h hpoll
    unfold guarded
    split
    · exact .inr ⟨rfl, hpoll⟩
    · exact .inl h
  refine ⟨?_, handle_server c (fun r hr => ?_) fun hr => ?_⟩
  · cases req with
    | pubsubSubscribe channel =>
        cases hop
        exact hguarded _ (by simp only; split <;> rfl) (by simp)
    | pubsubUnsubscribe channel id =>
        cases hop
        exact hguarded _ rfl (by simp)
    | pubsubPublish channel message =>
        cases hop
        exact hguarded _ (by simp only; split <;> rfl) (by simp)
    | pubsubPollMessages id limit =>
        cases hop
        exact .inl rfl
    | _ => cases hop
  · rw [hr] at hop
    cases hop
  · rw [hr] at hop
    cases hop

/-! ## Runs -/

/-- The messages that a poll of the watcher returns. -/
def ServerAction.toldBy (id : String) (app : App) : ServerAction → List PubSubMessage
  | .request io req => (req.pubsubOp io).elim [] fun op => app.pubsub.answerOf id (.call op)
  | .ttlTick _ => []

/-- A run with the events emitted so far and the messages that the watcher was given. -/
abbrev Watched := (App × List KeyspaceEvent) × List PubSubMessage

section

variable (rt : Runtime) (c : SnapshotCodec) (id key : String)

/-- An action, and what the watcher's polls return of it. -/
def Watched.step (w : Watched) (a : ServerAction) : Watched :=
  (observe rt c w.1 a, w.2 ++ a.toldBy id w.1.1)

/-- The messages of an action find room in the queue of the watcher. -/
def Watched.HasRoom (w : Watched) (a : ServerAction) : Prop :=
  (w.1.1.pubsub.queue id).length + (messagesOn (keyspaceChannel key) (a.publishedBy rt c w.1.1)).length
    ≤ w.1.1.pubsub.maxMessagesPerSubscriber

/-- No recovery drops events, and no client meddles with the subscription or the channel. -/
structure Watched.Undisturbed (w : Watched) (a : ServerAction) : Prop where
  drops : DropsNothing w.1 a
  recovers : a.Recovers rt c
  leaves : ∀ io req op, a = .request io req → req.pubsubOp io = some op →
    op.LeavesAlone id (keyspaceChannel key)

/-- What the events of the key are told of, on their way to the watcher and behind it. -/
def Watched.telling (w : Watched) : List String :=
  (w.2 ++ w.1.1.pubsub.queue id).map (·.message) ++ eventsAt key w.1.1.server.store.pendingKeyspaceEvents

end

variable {id key : String}

/-- What an action publishes for the watcher and what waits after it are what waited and what it emits. -/
theorem messagesOn_publishedBy (key : String) {app : App} {a : ServerAction} (hdrops : DropsNothing (app, []) a)
    (hrecovers : a.Recovers rt c) :
    messagesOn (keyspaceChannel key) (a.publishedBy rt c app)
        ++ eventsAt key (observe rt c (app, []) a).1.server.store.pendingKeyspaceEvents
      = eventsAt key app.server.store.pendingKeyspaceEvents ++ eventsAt key (a.emitted rt app) := by
  have hwaiting := congrArg (messagesOn (keyspaceChannel key)) (publishedBy_waiting hdrops hrecovers)
  rwa [messagesOn_append, messagesOn_append, messagesOn_events, messagesOn_events, messagesOn_events]
    at hwaiting

/-- An action that is no call on channels and queues delivers what it publishes. -/
theorem observe_pubsub (rt : Runtime) (c : SnapshotCodec) (app : App) {a : ServerAction}
    (ha : ∀ io req, a = .request io req → req.pubsubOp io = none) :
    ∃ now, (observe rt c (app, []) a).1.pubsub
      = App.publishAll now (a.publishedBy rt c app) app.pubsub := by
  cases a with
  | ttlTick now => exact ⟨now, rfl⟩
  | request io req =>
      by_cases hwrite : ∀ r, req ≠ .write r
      · refine ⟨0, ?_⟩
        rw [App.handle_published c hwrite]
        exact App.handle_pubsub c hwrite (ha io req rfl)
      · push Not at hwrite
        obtain ⟨r, rfl⟩ := hwrite
        exact ⟨io.now 0, rfl⟩

/-- A call of a client hands the watcher what it polls, and the rest of its queue stays. -/
theorem watches_request (rt : Runtime) (c : SnapshotCodec) {app : App} {io : AppIo} {req : HttpRequest}
    {op : PubSubOp} {channel : String}
    (h : app.pubsub.Watches id channel) (hop : req.pubsubOp io = some op)
    (hleaves : op.LeavesAlone id channel) :
    (app.handle rt c io req).2.pubsub.Watches id channel ∧
      (ServerAction.request io req).toldBy id app ++ (app.handle rt c io req).2.pubsub.queue id
        = app.pubsub.queue id := by
  rw [ServerAction.toldBy, hop, Option.elim_some]
  rcases (App.handle_pubsubOp rt c app hop).1 with hstep | ⟨hsame, hpoll⟩
  · rw [hstep]
    exact h.call hleaves
  · have hnone : app.pubsub.answerOf id (.call op) = [] := by
      cases op with
      | pollMessages i limit => exact absurd rfl (hpoll i limit)
      | _ => rfl
    rw [hsame, hnone]
    exact ⟨h, rfl⟩

/-- The step lemma: the watcher stays subscribed, and what it is told of grows by the events of the action
exactly where they find room. -/
theorem Watched.telling_step {w : Watched} {a : ServerAction}
    (h : w.1.1.pubsub.Watches id (keyspaceChannel key)) (ha : w.Undisturbed rt c id key a) :
    (w.step rt c id a).1.1.pubsub.Watches id (keyspaceChannel key) ∧
      ((w.step rt c id a).telling id key = w.telling id key ++ eventsAt key (a.emitted rt w.1.1) ↔
        w.HasRoom rt c id key a) := by
  obtain ⟨⟨app, events⟩, told⟩ := w
  have hwaiting := messagesOn_publishedBy key ha.drops ha.recovers
  by_cases hcall : ∃ io req op, a = .request io req ∧ req.pubsubOp io = some op
  · obtain ⟨io, req, op, rfl, hop⟩ := hcall
    have hpublished : (ServerAction.request io req).publishedBy rt c app = [] :=
      App.handle_published c fun r hr => by
        rw [hr] at hop
        cases hop
    obtain ⟨hwatches, hqueue⟩ := watches_request rt c h hop (ha.leaves io req op rfl hop)
    rw [hpublished] at hwaiting
    refine ⟨hwatches, iff_of_true ?_ ?_⟩
    · show ((told ++ (ServerAction.request io req).toldBy id app)
        ++ (app.handle rt c io req).2.pubsub.queue id).map (·.message) ++ eventsAt key _ = _
      rw [List.append_assoc, hqueue, Watched.telling, List.append_assoc, ← hwaiting]
      rfl
    · rw [Watched.HasRoom, hpublished]
      exact h.bounded
  · have hquiet : ∀ io req, a = .request io req → req.pubsubOp io = none := fun io req hreq =>
      Option.eq_none_iff_forall_ne_some.mpr fun op hop => hcall ⟨io, req, op, hreq, hop⟩
    have htold : a.toldBy id app = [] := by
      cases a with
      | ttlTick now => rfl
      | request io req => rw [ServerAction.toldBy, hquiet io req rfl]; rfl
    obtain ⟨now, hpubsub⟩ := observe_pubsub rt c app hquiet
    have hwatches : (Watched.step rt c id ((app, events), told) a).1.1.pubsub.Watches id
        (keyspaceChannel key) := by
      show (observe rt c (app, []) a).1.pubsub.Watches id (keyspaceChannel key)
      rw [hpubsub]
      exact h.publishAll now _
    refine ⟨hwatches, ?_, fun hroom => ?_⟩
    · -- without room the queue stays in bounds, and something is missing
      intro hall
      have hlength := congrArg List.length hall
      have hlengths := congrArg List.length hwaiting
      have hbounded : ((observe rt c (app, []) a).1.pubsub.queue id).length
          ≤ app.pubsub.maxMessagesPerSubscriber := by
        rw [← show (observe rt c (app, []) a).1.pubsub.maxMessagesPerSubscriber
          = app.pubsub.maxMessagesPerSubscriber by rw [hpubsub, PubSub.publishAll_max]]
        exact hwatches.bounded
      simp only [Watched.telling, Watched.step, htold, List.append_nil, List.length_append, List.length_map]
        at hlength hlengths
      have hafter : (observe rt c (app, events) a).1 = (observe rt c (app, []) a).1 := rfl
      rw [hafter] at hlength
      simp only [Watched.HasRoom]
      omega
    · show ((told ++ a.toldBy id app) ++ (observe rt c (app, []) a).1.pubsub.queue id).map (·.message)
        ++ eventsAt key (observe rt c (app, []) a).1.server.store.pendingKeyspaceEvents = _
      rw [htold, List.append_nil, List.map_append, hpubsub,
        h.publishAll_queue (keyspaceChannel_ne_empty key) now _ hroom, Watched.telling, List.map_append]
      simp only [List.append_assoc]
      rw [hwaiting]

/-- The watcher is subscribed, and what it is told of is what it was to be told of at first and then all
events of the key, in order. -/
structure Watched.Told (id key : String) (waiting : List String) (w : Watched) : Prop where
  watches : w.1.1.pubsub.Watches id (keyspaceChannel key)
  told : w.telling id key = waiting ++ eventsAt key w.1.2

/-- For a client that is subscribed to the channel of a key, over every run of requests and ticks of the
clean-up in which nobody meddles with its subscription: what its polls returned, what waits in its queue and
what waits in the store are together the events of the key, each once and in their order, exactly as long as
each action finds room in its queue for what it publishes. -/
theorem watcher_is_told_iff (rt : Runtime) (c : SnapshotCodec) (app : App) (id key : String)
    (actions : List ServerAction) (hwatches : app.pubsub.Watches id (keyspaceChannel key))
    (hquiet : Guarded (Watched.step rt c id) (Watched.Undisturbed rt c id key) ((app, []), []) actions) :
    Always (Watched.step rt c id)
        (fun w => w.telling id key = Watched.telling id key ((app, []), []) ++ eventsAt key w.1.2)
        ((app, []), []) actions ↔
      Guarded (Watched.step rt c id) (Watched.HasRoom rt c id key) ((app, []), []) actions := by
  have hevents : ∀ (w : Watched) (a : ServerAction),
      eventsAt key (w.step rt c id a).1.2 = eventsAt key w.1.2 ++ eventsAt key (a.emitted rt w.1.1) := by
    intro w a
    show eventsAt key (w.1.2 ++ a.emitted rt w.1.1) = _
    rw [eventsAt, List.filter_append, List.map_append]
    rfl
  have hstart : Watched.Told id key (Watched.telling id key ((app, []), [])) ((app, []), []) :=
    ⟨hwatches, (List.append_nil _).symm⟩
  refine always_iff_guarded (fun w a hinv ha hroom => ?_) (fun _ => Watched.Told.told)
    (fun w a hinv ha hfull hall => hfull ?_) hstart hquiet
  · obtain ⟨hafter, htelling⟩ := Watched.telling_step hinv.watches ha
    exact ⟨hafter, by rw [htelling.mpr hroom, hinv.told, hevents, List.append_assoc]⟩
  · refine (Watched.telling_step hinv.watches ha).2.mp ?_
    rw [hall, hinv.told, hevents, List.append_assoc]

/-- Notifications are on, and a client watches the key `k`. -/
def watchedApp : App := { notifyingApp with pubsub := (({} : PubSub).subscribe "__keyspace__:k" "w").2 }

/-- A set, an append that leaves its event behind, a tick of the clean-up, and a poll. -/
def watchedActions : List ServerAction :=
  [.request { toIo := .healthy 5 } (.write (.setValue "k" "v" none)),
    .request { toIo := .healthy 6 } (.write (.appendValue "k" "w")), .ttlTick 9,
    .request { toIo := .healthy 9 } (.pubsubPollMessages "w" none)]

theorem watchedApp_watches : watchedApp.pubsub.Watches "w" (keyspaceChannel "k") where
  count c := by
    show ((({} : PubSub).subscribe "__keyspace__:k" "w").2.listSubscribers c).count "w" = _
    rw [PubSub.subscribe_listSubscribers]
    by_cases hc : c = "__keyspace__:k"
    · subst hc
      decide +kernel
    · rw [if_neg fun h => hc h.1.symm, show (if c = keyspaceChannel "k" then 1 else 0) = 0 from if_neg hc]
      simp [PubSub.listSubscribers]
  queued := by decide +kernel
  max_pos := by decide
  bounded := by decide +kernel

theorem watcher_is_told_iff_four : Always (Watched.step .strings (.plain []) "w")
    (fun w => w.telling "w" "k" = Watched.telling "w" "k" ((watchedApp, []), []) ++ eventsAt "k" w.1.2)
    ((watchedApp, []), []) watchedActions := by
  refine (watcher_is_told_iff .strings (.plain []) watchedApp "w" "k" watchedActions watchedApp_watches
    ⟨⟨(fun _ h => nomatch h), trivial, ?_⟩, ⟨(fun _ h => nomatch h), trivial, ?_⟩,
      ⟨trivial, trivial, ?_⟩, ⟨trivial, trivial, ?_⟩, trivial⟩).mpr ⟨?_, ?_, ?_, ?_, trivial⟩
  · rintro io req op ⟨⟩ hop
    cases hop
  · rintro io req op ⟨⟩ hop
    cases hop
  · rintro io req op ⟨⟩
  · rintro io req op ⟨⟩ hop
    cases hop
    trivial
  all_goals
    show _ ≤ _
    decide +kernel

end Daikon
