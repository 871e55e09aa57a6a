/-
# Daikon.Api.PubSub -- channels and message queues (`pubsub.rs`)

A subscriber is an identifier with a queue of unread messages; a channel is the list of the
subscribers it delivers to, and a subscriber that is there twice is delivered to twice. A full queue
drops its oldest message. Unsubscribing leaves the queue.

The two maps stand side by side in the source, each under a lock of its own, and nothing ties them together:
an identifier can have a queue and be in no channel, or stand in a channel twice. A subscriber that never
subscribed has no queue and its polls are empty.

A publish goes through the list of the channel as it stands, so the number that it answers is the number of
places in the list. An empty channel name is refused, and nothing else is. What holds over runs is in three
modules: who is delivered to and how often (`Daikon.Api.Subscriptions`), what a queue holds
(`Daikon.Api.Mailboxes`), and the publishes that overlap (`Daikon.Api.Broadcast`).
-/
import Daikon.Lib.Lookup
import Daikon.Store.Basic
import Std.Data.ExtTreeMap

namespace Daikon

/-- A message as a subscriber gets it, stamped in seconds. -/
structure PubSubMessage where
  channel : String
  message : String
  timestamp : Nat
  deriving DecidableEq, Repr

/-- The broker: who is subscribed to what, and what they have not read yet. -/
structure PubSub where
  /-- Channel to subscribers. -/
  channels : Std.ExtTreeMap String (List String) compare := ∅
  /-- Subscriber to unread messages, the oldest first. -/
  subscribers : Std.ExtTreeMap String (List PubSubMessage) compare := ∅
  maxMessagesPerSubscriber : Nat := 1000

namespace PubSub

/-- Put the subscriber at the end of the channel's list, which may have it already, and give it a queue if
it has none. -/
def subscribe (p : PubSub) (channel subscriberId : String) : Except KvStoreError String × PubSub :=
  if channel = "" then (.error (.invalidKey "Channel name cannot be empty"), p)
  else
    let ids := (p.channels[channel]?).getD []
    (.ok subscriberId,
      { p with
        channels := p.channels.insert channel (ids ++ [subscriberId])
        subscribers := if subscriberId ∈ p.subscribers then p.subscribers
          else p.subscribers.insert subscriberId [] })

/-- Take the subscriber off the channel, as often as it is on it. A channel without subscribers is removed.
-/
def unsubscribe (p : PubSub) (channel subscriberId : String) : PubSub :=
  match p.channels[channel]? with
  | none => p
  | some ids =>
      let rest := ids.filter (· ≠ subscriberId)
      { p with
        channels := if rest = [] then p.channels.erase channel else p.channels.insert channel rest }

/-- A message for one subscriber of the list; one that has no queue misses it. -/
def deliver (max : Nat) (msg : PubSubMessage)
    (subscribers : Std.ExtTreeMap String (List PubSubMessage) compare) (id : String) :
    Std.ExtTreeMap String (List PubSubMessage) compare :=
  match subscribers[id]? with
  | some messages =>
      let kept := if messages.length ≥ max then messages.drop 1 else messages
      subscribers.insert id (kept ++ [msg])
  | none => subscribers

/-- Deliver a message to each place of the channel's list and answer how many there are. A channel that
nobody has subscribed to takes messages, too. -/
def publish (p : PubSub) (now : Nat) (channel message : String) : Except KvStoreError Nat × PubSub :=
  if channel = "" then (.error (.invalidKey "Channel name cannot be empty"), p)
  else
    let ids := (p.channels[channel]?).getD []
    (.ok ids.length,
      { p with subscribers :=
          ids.foldl (deliver p.maxMessagesPerSubscriber ⟨channel, message, now⟩) p.subscribers })

/-- The loop of `poll_messages`: what it takes off the queue, and what stays. -/
def popMessages : Nat → List PubSubMessage → List PubSubMessage × List PubSubMessage
  | 0, messages => ([], messages)
  | _ + 1, [] => ([], [])
  | limit + 1, msg :: messages =>
      let r := popMessages limit messages
      (msg :: r.1, r.2)

/-- Take up to so many unread messages, the oldest first. A subscriber without a queue gets none. -/
def pollMessages (p : PubSub) (subscriberId : String) (limit : Nat) : List PubSubMessage × PubSub :=
  match p.subscribers[subscriberId]? with
  | some messages =>
      let r := popMessages limit messages
      (r.1, { p with subscribers := p.subscribers.insert subscriberId r.2 })
  | none => ([], p)

/-- The channels with subscribers. -/
def listChannels (p : PubSub) : List String := p.channels.keys

/-- The list of a channel, with a subscriber as often as it is on it. -/
def listSubscribers (p : PubSub) (channel : String) : List String := (p.channels[channel]?).getD []

/-! ## Polling -/

/-- The unread messages of a subscriber. -/
def queue (p : PubSub) (id : String) : List PubSubMessage := (p.subscribers[id]?).getD []

theorem popMessages_eq (limit : Nat) (messages : List PubSubMessage) :
    popMessages limit messages = (messages.take limit, messages.drop limit) := by
  induction limit generalizing messages with
  | zero => rfl
  | succ limit ih =>
    cases messages with
    | nil => rfl
    | cons msg messages => rw [popMessages, ih]; rfl

/-- A poll hands out the oldest messages and keeps the others: none is lost, none is given twice. -/
theorem pollMessages_append (p : PubSub) (id : String) (limit : Nat) :
    (p.pollMessages id limit).1 ++ (p.pollMessages id limit).2.queue id = p.queue id := by
  unfold pollMessages queue
  cases hid : p.subscribers[id]? with
  | none => simp [hid]
  | some messages => simp [popMessages_eq]

/-- The queues are as before exactly if there was nothing to hand out. -/
theorem pollMessages_subscribers_iff (p : PubSub) (id : String) (limit : Nat) :
    (p.pollMessages id limit).2.subscribers = p.subscribers ↔ limit = 0 ∨ p.queue id = [] := by
  unfold pollMessages queue
  cases hid : p.subscribers[id]? with
  | none => simp
  | some messages =>
    simp only [popMessages_eq, Option.getD_some]
    constructor
    · intro h
      have hsame : (p.subscribers.insert id (messages.drop limit))[id]? = some messages := by
        rw [h, hid]
      have hdrop : messages.drop limit = messages := by simpa using hsame
      have hlength := congrArg List.length hdrop
      rw [List.length_drop] at hlength
      rcases Nat.eq_zero_or_pos limit with hzero | hpos
      · exact .inl hzero
      · exact .inr (List.eq_nil_of_length_eq_zero (by omega))
    · intro h
      have hdrop : messages.drop limit = messages := by rcases h with rfl | rfl <;> simp
      rw [hdrop]
      exact Lib.Lookup.insert_same p.subscribers hid

end PubSub

end Daikon
