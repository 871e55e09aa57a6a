/-
# Daikon.Api.Mailboxes -- what a subscriber is sent, and what it gets (`pubsub.rs`)

To a subscriber a run is a list of messages that come in and of polls. Its queue is the bounded queue that
takes them one by one, and its polls return what that queue gives (`queues_are_bounded_fifos`). The other
calls, among them the clean-up of stale subscribers, change only to whom later messages go.

The module is an instance of `Daikon.Lib.BoundedFifo`. `eventsOf` says what each call of the broker is to
one subscriber: as many messages as it has places in the list of the channel, a poll, or nothing. The step
lemma (`mailStep_queue`) then ties the queue of the broker to that of the library, and the run is the
library's.

The bound is that of the broker, 1000 messages unless it is built otherwise. A message that finds the queue
full pushes out the oldest, so a subscriber may miss messages, and the result says which. The clean-up of
stale subscribers takes nobody's queue, and it answers zero whoever it has removed.
-/
import Daikon.Api.Broadcast
import Daikon.Lib.BoundedFifo

namespace Daikon

open Lib.BoundedFifo (Event Fifo Sound)

namespace PubSub

/-- Unread messages wait for this subscriber. -/
def hasMessages (p : PubSub) (id : String) : Bool :=
  match p.subscribers[id]? with
  | some messages => !messages.isEmpty
  | none => false

/-- Those who have read everything are taken out of the channels; their queues stay, and the answer counts
nobody. -/
def cleanupStaleSubscribers (p : PubSub) : Except KvStoreError Nat × PubSub :=
  (.ok 0,
    { p with channels :=
        (p.channels.map fun _ ids => ids.filter p.hasMessages).filter fun _ ids => !ids.isEmpty })

end PubSub

/-- The calls on channels and queues, with the clean-up. -/
inductive MailboxOp where
  | call (op : PubSubOp)
  | cleanupStaleSubscribers

namespace PubSub

/-- What a call or a clean-up leaves of the broker. -/
def mailStep (p : PubSub) : MailboxOp → PubSub
  | .call op => p.step op
  | .cleanupStaleSubscribers => p.cleanupStaleSubscribers.2

/-- What a call is to one subscriber: a message for each time that it is in the list of the channel, or a
poll. -/
def eventsOf (p : PubSub) (id : String) : MailboxOp → List (Event PubSubMessage)
  | .call (.publish now channel message) =>
      if channel = "" then []
      else List.replicate ((p.listSubscribers channel).count id) (.push ⟨channel, message, now⟩)
  | .call (.pollMessages i limit) => if i = id then [.poll limit] else []
  | _ => []

/-- What a call returns to one subscriber that polls. -/
def answerOf (p : PubSub) (id : String) : MailboxOp → List PubSubMessage
  | .call (.pollMessages i limit) => if i = id then (p.pollMessages i limit).1 else []
  | _ => []

/-- The events of a run for one subscriber. -/
def eventsOver (id : String) : PubSub → List MailboxOp → List (Event PubSubMessage)
  | _, [] => []
  | p, op :: ops => p.eventsOf id op ++ eventsOver id (p.mailStep op) ops

/-- The messages that the polls of a run return to one subscriber. -/
def answersOver (id : String) : PubSub → List MailboxOp → List PubSubMessage
  | _, [] => []
  | p, op :: ops => p.answerOf id op ++ answersOver id (p.mailStep op) ops

/-! ## One call -/

theorem cleanup_listSubscribers (p : PubSub) (channel : String) :
    p.cleanupStaleSubscribers.2.listSubscribers channel
      = (p.listSubscribers channel).filter p.hasMessages := by
  unfold listSubscribers
  show (((p.channels.map fun _ ids => ids.filter p.hasMessages).filter
    fun _ ids => !ids.isEmpty)[channel]?).getD [] = _
  rw [Std.ExtTreeMap.getElem?_filter', Std.ExtTreeMap.getElem?_map]
  cases hids : p.channels[channel]? with
  | none => rfl
  | some ids =>
      -- a list that was emptied goes, and an absent one reads as empty
      simp only [Option.map_some, Option.getD_some]
      cases ids.filter p.hasMessages <;> rfl

theorem mailStep_queued {p : PubSub} (h : p.Queued) (op : MailboxOp) : (p.mailStep op).Queued := by
  cases op with
  | call op => exact step_queued h op
  | cleanupStaleSubscribers =>
      intro channel id hid
      rw [mailStep, cleanup_listSubscribers] at hid
      exact h channel id (List.mem_of_mem_filter hid)

theorem mailStep_max (p : PubSub) (op : MailboxOp) :
    (p.mailStep op).maxMessagesPerSubscriber = p.maxMessagesPerSubscriber := by
  cases op with
  | cleanupStaleSubscribers => rfl
  | call op =>
      cases op with
      | subscribe channel id =>
          simp only [mailStep, step, subscribe]
          split <;> rfl
      | unsubscribe channel id =>
          simp only [mailStep, step, unsubscribe]
          split <;> rfl
      | publish now channel message =>
          simp only [mailStep, step, publish]
          split <;> rfl
      | pollMessages id limit =>
          simp only [mailStep, step, pollMessages]
          split <;> rfl

/-- A queue with its history takes a message as the subscriber's queue does. -/
theorem push_queue (max : Nat) (msg : PubSubMessage) (f : Fifo PubSubMessage) :
    (f.push max msg).queue = receive max msg f.queue := by
  unfold Fifo.push receive
  cases f.queue with
  | nil => simp
  | cons oldest rest =>
      simp only
      split <;> rfl

theorem pushes_queue (max : Nat) (msg : PubSubMessage) (n : Nat) : ∀ f : Fifo PubSubMessage,
    ((List.replicate n (Event.push msg)).foldl (Fifo.step max) f).queue = (receive max msg)^[n] f.queue := by
  induction n with
  | zero => exact fun f => rfl
  | succ n ih =>
      intro f
      rw [List.replicate_succ, List.foldl_cons, ih, Function.iterate_succ_apply]
      exact congrArg _ (push_queue max msg f)

theorem pushes_polled (max : Nat) (msg : PubSubMessage) (n : Nat) : ∀ f : Fifo PubSubMessage,
    ((List.replicate n (Event.push msg)).foldl (Fifo.step max) f).polled = f.polled := by
  induction n with
  | zero => exact fun f => rfl
  | succ n ih =>
      intro f
      rw [List.replicate_succ, List.foldl_cons, ih]
      show (f.push max msg).polled = f.polled
      unfold Fifo.push
      cases f.queue with
      | nil => rfl
      | cons oldest rest =>
          simp only
          split
          · simp [Fifo.polled]
          · rfl

/-- The step lemma: a call does to the subscriber's queue, and answers, what its events do. -/
theorem mailStep_queue {p : PubSub} (hqueued : p.Queued) {id : String} {f : Fifo PubSubMessage}
    (h : p.queue id = f.queue) (op : MailboxOp) :
    (p.mailStep op).queue id = ((p.eventsOf id op).foldl (Fifo.step p.maxMessagesPerSubscriber) f).queue ∧
      ((p.eventsOf id op).foldl (Fifo.step p.maxMessagesPerSubscriber) f).polled
        = f.polled ++ p.answerOf id op := by
  have hquiet : f.polled = f.polled ++ [] := (List.append_nil _).symm
  cases op with
  | cleanupStaleSubscribers => exact ⟨h, hquiet⟩
  | call op =>
      cases op with
      | subscribe channel i => exact ⟨(Broadcast.subscribe_queue p channel i id).trans h, hquiet⟩
      | unsubscribe channel i => exact ⟨(Broadcast.unsubscribe_queue p channel i id).trans h, hquiet⟩
      | publish now channel message =>
          by_cases hchannel : channel = ""
          · simp only [mailStep, step, publish, eventsOf, if_pos hchannel]
            exact ⟨h, hquiet⟩
          · simp only [eventsOf, if_neg hchannel]
            rw [pushes_queue, pushes_polled, ← h]
            refine ⟨?_, hquiet⟩
            show (((p.publish now channel message).2.subscribers)[id]?).getD [] = _
            rw [publish_queue p now message id hchannel]
            unfold queue
            cases hid : p.subscribers[id]? with
            | some messages => rfl
            | none =>
                -- without a queue it is in no list
                have hout : id ∉ p.listSubscribers channel := fun hin =>
                  mem_subscribers_iff.mp (hqueued channel id hin) hid
                rw [List.count_eq_zero.mpr hout]
                rfl
      | pollMessages i limit =>
          by_cases hi : i = id
          · subst hi
            simp only [mailStep, step, eventsOf, answerOf, if_true]
            rw [Broadcast.pollMessages_queue, if_pos rfl, Broadcast.pollMessages_answer, h]
            refine ⟨rfl, ?_⟩
            show (((f.left ++ (f.queue.take limit).map fun a => (a, true)).filter (·.2)).map Prod.fst) = _
            have hall : ((f.queue.take limit).map fun a => (a, true)).filter (·.2)
                = (f.queue.take limit).map fun a => (a, true) :=
              List.filter_eq_self.mpr fun q hq => by
                obtain ⟨a, -, rfl⟩ := List.mem_map.mp hq
                rfl
            rw [List.filter_append, hall, List.map_append, List.map_map]
            congr 1
            exact List.map_id _
          · simp only [mailStep, step, eventsOf, answerOf, if_neg hi]
            rw [Broadcast.pollMessages_queue, if_neg fun heq => hi heq.symm]
            exact ⟨h, hquiet⟩

/-! ## Runs -/

theorem run_queue (id : String) (ops : List MailboxOp) : ∀ {p : PubSub} {f : Fifo PubSubMessage},
    p.Queued → p.queue id = f.queue →
      (ops.foldl mailStep p).queue id
        = ((eventsOver id p ops).foldl (Fifo.step p.maxMessagesPerSubscriber) f).queue ∧
      ((eventsOver id p ops).foldl (Fifo.step p.maxMessagesPerSubscriber) f).polled
        = f.polled ++ answersOver id p ops := by
  induction ops with
  | nil => exact fun _ h => ⟨h, (List.append_nil _).symm⟩
  | cons op ops ih =>
      intro p f hqueued h
      obtain ⟨hqueue, hpolled⟩ := mailStep_queue hqueued h op
      obtain ⟨hlast, hrest⟩ := ih (mailStep_queued hqueued op) hqueue
      rw [mailStep_max] at hlast hrest
      rw [List.foldl_cons, eventsOver, answersOver, List.foldl_append]
      refine ⟨hlast, ?_⟩
      rw [hrest, hpolled, List.append_assoc]

/-- For every run of calls and every subscriber: its queue, and all that its polls have returned, are those
of a bounded queue that takes the messages sent to it one by one. So the queue is what was sent and has not
left, in order; the polls return what was sent, each message once for each time it was sent and the oldest
first; the queue is never longer than the limit; and a message is dropped unpolled only as the oldest of a
full queue. -/
theorem queues_are_bounded_fifos (ops : List MailboxOp) (id : String) :
    let max := ({} : PubSub).maxMessagesPerSubscriber
    let f := Lib.BoundedFifo.run max (eventsOver id {} ops)
    (ops.foldl mailStep {}).queue id = f.queue ∧
    answersOver id {} ops = f.polled ∧
    Sound max f ∧
    (f.polled ++ f.queue).Sublist f.pushed ∧
    f.pushed.Perm (f.polled ++ f.dropped ++ f.queue) := by
  intro max f
  have hempty : ({} : PubSub).Queued := run_queued []
  obtain ⟨hqueue, hpolled⟩ := run_queue id ops hempty (f := {}) (by simp [queue])
  have hsound : Sound max f := Lib.BoundedFifo.run_sound (by decide) _
  exact ⟨hqueue, hpolled.symm, hsound, hsound.polled_sublist, hsound.perm⟩

end PubSub

end Daikon
