/-
# Daikon.Api.Broadcast -- publishes that overlap (`pubsub.rs`)

A `publish` copies the subscribers of its channel, lets go of the channels, and only then takes the
lock on the queues to deliver to all of them. Between its two steps anything may run: other publishes,
subscriptions, polls. The delivery is one step, so the queues are filled from one log of deliveries,
whatever the order of the copies was: two subscribers that both get two messages get them in one order
(`same_order`).

The number of a publish is the model's own, and tells two messages of one text apart. A run is a list of
steps, in which a copy and its delivery may have anything between them; `received` is what a subscriber has
polled and what is queued for it, so a poll does not change it.

What carries the proof is that a delivery is one step for all who receive it: each list of received messages
is in the order of the deliveries (`Ordered`). The order of the copies does not matter, and a subscriber
that left in between still gets the message. `deliver_copy` is the sequential case: copy and delivery
together are `PubSub.publish`.
-/
import Daikon.Api.Subscriptions
import Daikon.Lib.Precede

namespace Daikon

open Lib.Precede (AllBefore Ranked)

/-- A message with the number of its publish, which tells it from others with the same text. -/
structure Published where
  number : Nat
  message : PubSubMessage
  deriving DecidableEq, Repr

/-- The channels and queues, with the publishes that have not delivered yet. -/
structure Broadcast where
  pubsub : PubSub := {}
  /-- How many publishes have begun. -/
  begun : Nat := 0
  /-- What a publish between its two steps holds: its message and the copied subscribers. -/
  copied : Nat → Option (PubSubMessage × List String) := fun _ => none
  /-- What the polls of a subscriber have returned, one after the other. -/
  polled : String → List PubSubMessage := fun _ => []
  /-- History: the deliveries, in order. -/
  log : List Published := []
  /-- History: the queues, and what was polled, with the numbers of the publishes. -/
  unread : String → List Published := fun _ => []
  read : String → List Published := fun _ => []

/-- One locked step of one of the operations. -/
inductive BroadcastStep where
  | subscribe (channel subscriberId : String)
  | unsubscribe (channel subscriberId : String)
  /-- A `publish` copies the subscribers. -/
  | copy (now : Nat) (channel message : String)
  /-- The publish of this number delivers. -/
  | deliver (number : Nat)
  | pollMessages (subscriberId : String) (limit : Nat)

namespace Broadcast

open PubSub (receive)

/-- The second step of a publish: its message goes to the subscribers it has copied. -/
def deliver (b : Broadcast) (number : Nat) (message : PubSubMessage) (ids : List String) : Broadcast :=
  let max := b.pubsub.maxMessagesPerSubscriber
  { b with
    pubsub := { b.pubsub with
      subscribers := ids.foldl (PubSub.deliver max message) b.pubsub.subscribers }
    copied := Function.update b.copied number none
    log := b.log ++ [⟨number, message⟩]
    unread := fun id =>
      if id ∈ b.pubsub.subscribers then
        (receive max ⟨number, message⟩)^[ids.count id] (b.unread id)
      else b.unread id }

/-- A subscriber polls. What it reads is taken down on both sides. -/
def poll (b : Broadcast) (id : String) (limit : Nat) : Broadcast :=
  { b with
    pubsub := (b.pubsub.pollMessages id limit).2
    polled := Function.update b.polled id (b.polled id ++ (b.pubsub.pollMessages id limit).1)
    unread := Function.update b.unread id ((b.unread id).drop limit)
    read := Function.update b.read id (b.read id ++ (b.unread id).take limit) }

/-- One step of a publisher or a subscriber. A message is copied to the list of its channel first and
delivered later, each under its own lock. -/
def step (b : Broadcast) : BroadcastStep → Broadcast
  | .subscribe channel id => { b with pubsub := (b.pubsub.subscribe channel id).2 }
  | .unsubscribe channel id => { b with pubsub := b.pubsub.unsubscribe channel id }
  | .copy now channel message =>
      if channel = "" then b
      else
        { b with
          begun := b.begun + 1
          copied := Function.update b.copied b.begun
            (some (⟨channel, message, now⟩, b.pubsub.listSubscribers channel)) }
  | .deliver number =>
      match b.copied number with
      | none => b
      | some (message, ids) => b.deliver number message ids
  | .pollMessages id limit => b.poll id limit

/-- What a subscriber has received, in order: polled, or still queued. -/
def received (b : Broadcast) (id : String) : List Published := b.read id ++ b.unread id

/-- With nothing between its steps, a publish is `PubSub.publish`. -/
theorem deliver_copy (b : Broadcast) (now : Nat) {channel : String} (message : String)
    (h : channel ≠ "") : ((b.step (.copy now channel message)).step (.deliver b.begun)).pubsub
      = (b.pubsub.publish now channel message).2 := by
  simp only [step, if_neg h, Function.update_self]
  unfold PubSub.publish
  rw [if_neg h]
  rfl

/-! ## One step -/

/-- What is true between the steps. -/
structure Ordered (b : Broadcast) : Prop where
  queue : ∀ id, b.pubsub.queue id = (b.unread id).map (·.message)
  polled : ∀ id, b.polled id = (b.read id).map (·.message)
  logged : ∀ id, ∀ p ∈ b.received id, p ∈ b.log
  ranked : ∀ id, Ranked (b.log.idxOf ·) (b.received id)
  waiting : ∀ p ∈ b.log, b.copied p.number = none
  begun : ∀ p ∈ b.log, p.number < b.begun
  counted : ∀ number, b.copied number ≠ none → number < b.begun

theorem ordered_empty : ({} : Broadcast).Ordered where
  queue id := by simp [PubSub.queue]
  polled _ := rfl
  logged _ _ hp := absurd hp List.not_mem_nil
  ranked _ := List.Pairwise.nil
  waiting _ hp := absurd hp List.not_mem_nil
  begun _ hp := absurd hp List.not_mem_nil
  counted _ h := absurd rfl h

theorem subscribe_queue (p : PubSub) (channel other id : String) :
    (p.subscribe channel other).2.queue id = p.queue id := by
  unfold PubSub.subscribe PubSub.queue
  split
  · rfl
  · simp only
    split
    · rfl
    · next hnew =>
        rw [Lib.Lookup.getElem?_insert]
        split
        · next heq =>
            rw [heq, Std.ExtTreeMap.getElem?_eq_none hnew]
            rfl
        · rfl

theorem unsubscribe_queue (p : PubSub) (channel other id : String) :
    (p.unsubscribe channel other).queue id = p.queue id := by
  unfold PubSub.unsubscribe PubSub.queue
  split <;> rfl

theorem pollMessages_queue (p : PubSub) (other id : String) (limit : Nat) :
    (p.pollMessages other limit).2.queue id
      = if id = other then (p.queue other).drop limit else p.queue id := by
  unfold PubSub.pollMessages PubSub.queue
  cases hqueue : p.subscribers[other]? with
  | none =>
      simp only
      split
      · next h => simp [h, hqueue]
      · rfl
  | some messages =>
      simp only [PubSub.popMessages_eq, Option.getD_some, Lib.Lookup.getElem?_insert]
      split <;> rfl

theorem pollMessages_answer (p : PubSub) (id : String) (limit : Nat) :
    (p.pollMessages id limit).1 = (p.queue id).take limit := by
  unfold PubSub.pollMessages PubSub.queue
  cases p.subscribers[id]? with
  | none => simp
  | some messages => simp only [PubSub.popMessages_eq, Option.getD_some]

theorem map_receive {α γ : Type*} (f : α → γ) (max : Nat) (a : α) (xs : List α) :
    (receive max a xs).map f = receive max (f a) (xs.map f) := by
  unfold receive
  rw [List.length_map]
  split <;> simp

/-- A delivery goes to the end of what was received. -/
theorem ranked_receive {log : List Published} {p : Published} (hnew : p ∉ log) (max k : Nat)
    {read unread : List Published} (hlogged : ∀ q ∈ read ++ unread, q ∈ log ++ [p])
    (hranked : Ranked ((log ++ [p]).idxOf ·) (read ++ unread)) :
    (∀ q ∈ read ++ (receive max p)^[k] unread, q ∈ log ++ [p]) ∧
      Ranked ((log ++ [p]).idxOf ·) (read ++ (receive max p)^[k] unread) := by
  have hlast : ∀ q ∈ log ++ [p], (log ++ [p]).idxOf q ≤ (log ++ [p]).idxOf p := by
    intro q hq
    have hlt : (log ++ [p]).idxOf q < log.length + 1 := by
      simpa using List.idxOf_lt_length_of_mem hq
    have hend : (log ++ [p]).idxOf p = log.length := by
      rw [List.idxOf_append_of_notMem hnew, List.idxOf_cons_self, Nat.add_zero]
    omega
  induction k with
  | zero => exact ⟨hlogged, hranked⟩
  | succ k ih =>
      rw [Function.iterate_succ_apply']
      generalize (receive max p)^[k] unread = xs at ih
      -- a full queue loses its head, which leaves the order of the rest
      have hkept : (if xs.length ≥ max then xs.drop 1 else xs).Sublist xs := by
        split
        · exact List.drop_sublist 1 xs
        · exact List.Sublist.refl xs
      have hsub := List.Sublist.append (List.Sublist.refl read) hkept
      unfold receive
      rw [← List.append_assoc]
      constructor
      · intro q hq
        rcases List.mem_append.mp hq with hold | hone
        · exact ih.1 q (hsub.subset hold)
        · exact List.mem_append_right _ hone
      · exact (ih.2.sublist hsub).concat fun q hq => hlast q (ih.1 q (hsub.subset hq))

theorem deliver_queue {b : Broadcast} {id : String}
    (h : b.pubsub.queue id = (b.unread id).map (·.message)) (number : Nat) (message : PubSubMessage)
    (ids : List String) : (b.deliver number message ids).pubsub.queue id
      = ((b.deliver number message ids).unread id).map (·.message) := by
  unfold deliver PubSub.queue
  simp only [PubSub.deliverAll_getElem?]
  by_cases hid : id ∈ b.pubsub.subscribers
  · have hpush : Function.Semiconj (List.map Published.message)
        (receive b.pubsub.maxMessagesPerSubscriber ⟨number, message⟩)
        (receive b.pubsub.maxMessagesPerSubscriber message) :=
      fun xs => map_receive Published.message b.pubsub.maxMessagesPerSubscriber ⟨number, message⟩ xs
    obtain ⟨messages, hmessages⟩ :=
      Option.ne_none_iff_exists'.mp (PubSub.mem_subscribers_iff.mp hid)
    rw [if_pos hid, hpush.iterate_right, ← h, PubSub.queue, hmessages]
    rfl
  · rw [if_neg hid, ← h, PubSub.queue, Std.ExtTreeMap.getElem?_eq_none hid]
    rfl

theorem deliver_received (b : Broadcast) (number : Nat) (message : PubSubMessage) (ids : List String)
    (id : String) : (b.deliver number message ids).received id = b.read id
      ++ (receive b.pubsub.maxMessagesPerSubscriber ⟨number, message⟩)^[
        if id ∈ b.pubsub.subscribers then ids.count id else 0] (b.unread id) := by
  unfold received deliver
  by_cases hid : id ∈ b.pubsub.subscribers
  · simp only [if_pos hid]
  · simp only [if_neg hid, Function.iterate_zero, id_eq]

theorem Ordered.deliver {b : Broadcast} (h : b.Ordered) {number : Nat} {message : PubSubMessage}
    {ids : List String} (hcopied : b.copied number = some (message, ids)) :
    (b.deliver number message ids).Ordered := by
  -- what still waits has not been delivered, so the message is new in the log
  have hnew : ⟨number, message⟩ ∉ b.log := by
    intro hold
    rw [h.waiting _ hold] at hcopied
    cases hcopied
  have hreceived := fun id => ranked_receive hnew b.pubsub.maxMessagesPerSubscriber
    (if id ∈ b.pubsub.subscribers then ids.count id else 0)
    (fun q hq => List.mem_append_left _ (h.logged id q hq))
    ((h.ranked id).congr fun q hq => List.idxOf_append_of_mem (h.logged id q hq))
  refine ⟨fun id => deliver_queue (h.queue id) number message ids, h.polled, fun id => ?_,
    fun id => ?_, fun p hp => ?_, fun p hp => ?_, fun n hn => ?_⟩
  · rw [deliver_received]
    exact (hreceived id).1
  · rw [deliver_received]
    exact (hreceived id).2
  · show Function.update b.copied number none p.number = none
    rcases List.mem_append.mp hp with hold | hone
    · rw [Function.update_apply, h.waiting p hold, ite_self]
    · rw [List.mem_singleton.mp hone, Function.update_self]
  · rcases List.mem_append.mp hp with hold | hone
    · exact h.begun p hold
    · rw [List.mem_singleton.mp hone]
      exact h.counted number (by rw [hcopied]; simp)
  · refine h.counted n fun hnone => hn ?_
    show Function.update b.copied number none n = none
    rw [Function.update_apply, hnone, ite_self]

/-- A poll moves what it returns from the queue to what was polled. -/
theorem poll_received (b : Broadcast) (other : String) (limit : Nat) (id : String) :
    (b.poll other limit).received id = b.received id := by
  unfold received poll
  by_cases hid : id = other
  · subst hid
    simp only [Function.update_self, List.append_assoc, List.take_append_drop]
  · simp only [Function.update_of_ne hid]

theorem Ordered.poll {b : Broadcast} (h : b.Ordered) (other : String) (limit : Nat) :
    (b.poll other limit).Ordered := by
  refine { h with queue := fun id => ?_, polled := fun id => ?_, logged := fun id => ?_,
                  ranked := fun id => ?_ }
  · show (b.pubsub.pollMessages other limit).2.queue id
      = (Function.update b.unread other ((b.unread other).drop limit) id).map (·.message)
    rw [pollMessages_queue]
    by_cases hid : id = other
    · subst hid
      rw [if_pos rfl, h.queue, Function.update_self, List.map_drop]
    · rw [if_neg hid, h.queue, Function.update_of_ne hid]
  · show Function.update b.polled other _ id = (Function.update b.read other _ id).map (·.message)
    by_cases hid : id = other
    · subst hid
      rw [Function.update_self, Function.update_self, List.map_append, List.map_take,
        pollMessages_answer, h.polled, h.queue]
    · rw [Function.update_of_ne hid, Function.update_of_ne hid, h.polled]
  · rw [poll_received]
    exact h.logged id
  · rw [poll_received]
    exact h.ranked id

theorem step_ordered {b : Broadcast} (h : b.Ordered) (a : BroadcastStep) : (b.step a).Ordered := by
  cases a with
  | subscribe channel other =>
      exact { h with queue := fun id => (subscribe_queue _ channel other id).trans (h.queue id) }
  | unsubscribe channel other =>
      exact { h with queue := fun id => (unsubscribe_queue _ channel other id).trans (h.queue id) }
  | copy now channel message =>
      simp only [step]
      split
      · exact h
      · refine { h with waiting := fun p hp => ?_, begun := fun p hp => ?_,
                        counted := fun number hcopied => ?_ }
        -- the number is a new one
        · have hlt := h.begun p hp
          show Function.update b.copied b.begun _ p.number = none
          rw [Function.update_of_ne (by omega)]
          exact h.waiting p hp
        · exact Nat.lt_succ_of_lt (h.begun p hp)
        · change Function.update b.copied b.begun _ number ≠ none at hcopied
          rw [Function.update_apply] at hcopied
          show number < b.begun + 1
          split at hcopied
          · next heq => omega
          · exact Nat.lt_succ_of_lt (h.counted number hcopied)
  | deliver number =>
      simp only [step]
      cases hcopied : b.copied number with
      | none => exact h
      | some publish => exact h.deliver hcopied
  | pollMessages other limit => exact h.poll other limit

theorem run_ordered (steps : List BroadcastStep) : (steps.foldl step {}).Ordered :=
  Lib.Run.foldl_of_step Ordered (fun _ a h => step_ordered h a) ordered_empty steps

/-! ## Whole runs -/

/-- What a subscriber has polled and what is queued for it are the messages it has received. In every
interleaving, two messages that both reach two subscribers are received in the same order by both. -/
theorem same_order (steps : List BroadcastStep) :
    let b := steps.foldl step ({} : Broadcast)
    (∀ id, b.polled id ++ b.pubsub.queue id = (b.received id).map (·.message)) ∧
      ∀ first second m n, m ≠ n → (m ∈ b.received first ∧ m ∈ b.received second) →
        (n ∈ b.received first ∧ n ∈ b.received second) →
        (AllBefore (b.received first) m n ∧ AllBefore (b.received second) m n) ∨
          (AllBefore (b.received first) n m ∧ AllBefore (b.received second) n m) := by
  intro b
  have h : b.Ordered := run_ordered steps
  refine ⟨fun id => ?_, fun first second m n hne hm hn => ?_⟩
  · rw [h.polled, h.queue, ← List.map_append]
    rfl
  · have hrank : b.log.idxOf m ≠ b.log.idxOf n :=
      fun heq => hne ((List.idxOf_inj (h.logged first m hm.1)).mp heq)
    exact (h.ranked first).agree (h.ranked second) hrank hm hn

/-- Two publishes that deliver in the order opposite to that of their copies, and a poll between. -/
def overlapping : List BroadcastStep :=
  [.subscribe "news" "ann", .subscribe "news" "bob", .copy 7 "news" "hi", .copy 8 "news" "bye",
    .deliver 1, .pollMessages "ann" 5, .deliver 0]

theorem same_order_overlapping :
    let b := overlapping.foldl step ({} : Broadcast)
    b.polled "ann" = [⟨"news", "bye", 8⟩] ∧
      AllBefore (b.received "ann") ⟨1, ⟨"news", "bye", 8⟩⟩ ⟨0, ⟨"news", "hi", 7⟩⟩ ∧
      AllBefore (b.received "bob") ⟨1, ⟨"news", "bye", 8⟩⟩ ⟨0, ⟨"news", "hi", 7⟩⟩ := by
  intro b
  have hann : b.received "ann" = [⟨1, ⟨"news", "bye", 8⟩⟩, ⟨0, ⟨"news", "hi", 7⟩⟩] := by
    decide +kernel
  have hagree := (same_order overlapping).2 "ann" "bob" ⟨1, ⟨"news", "bye", 8⟩⟩
    ⟨0, ⟨"news", "hi", 7⟩⟩ (by decide) (by decide +kernel) (by decide +kernel)
  refine ⟨by decide +kernel, hagree.resolve_right fun hother => hother.1.2 ?_⟩
  show List.Sublist _ (b.received "ann")
  rw [hann]

end Broadcast

end Daikon
