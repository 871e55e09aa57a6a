/-
# Daikon.Api.Subscriptions -- who is delivered to, and how often

The list of a channel has a subscriber once for every `subscribe` since its last `unsubscribe`: nothing
looks whether it is there (`count_listSubscribers`). A `publish` delivers to it as often, and counts it
as often. So delivery is exactly once if and only if nobody subscribed twice (`exactly_once_iff`).

`recount` is the count of one identifier in one channel under one call, and `count_listSubscribers` says
that the channel lists are that count after any run. So the condition speaks of the calls that were made and
of nothing else. A publish reaches an identifier once for each place, and two places are one more message
and one more in the answer.

The second result is over all publishes of a run at once. `subscribed_twice` is the run of two subscribes
and one publish; the comment in the source says that the second subscribe should have been without effect.
-/
import Daikon.Api.PubSub
import Daikon.Lib.Run
import Mathlib.Data.Set.Card

namespace Daikon

/-- The calls on channels and queues. -/
inductive PubSubOp where
  | subscribe (channel subscriberId : String)
  | unsubscribe (channel subscriberId : String)
  | publish (now : Nat) (channel message : String)
  | pollMessages (subscriberId : String) (limit : Nat)

namespace PubSub

/-- What a call leaves of the broker. -/
def step (p : PubSub) : PubSubOp → PubSub
  | .subscribe channel id => (p.subscribe channel id).2
  | .unsubscribe channel id => p.unsubscribe channel id
  | .publish now channel message => (p.publish now channel message).2
  | .pollMessages id limit => (p.pollMessages id limit).2

/-! ## Delivery -/

/-- A queue with one message more; a full one loses its oldest. -/
def receive {α : Type*} (max : Nat) (msg : α) (messages : List α) : List α :=
  (if messages.length ≥ max then messages.drop 1 else messages) ++ [msg]

section

variable (max : Nat) (msg : PubSubMessage)
  (subscribers : Std.ExtTreeMap String (List PubSubMessage) compare)

theorem deliver_getElem? (other id : String) :
    (deliver max msg subscribers other)[id]?
      = if other = id then subscribers[id]?.map (receive max msg) else subscribers[id]? := by
  unfold deliver
  by_cases h : other = id
  · subst h
    rw [if_pos rfl]
    cases hqueue : subscribers[other]? with
    | none => exact hqueue
    | some messages => exact Std.ExtTreeMap.getElem?_insert_self
  · rw [if_neg h]
    cases hqueue : subscribers[other]? with
    | none => rfl
    | some messages =>
        show (subscribers.insert other (receive max msg messages))[id]? = _
        rw [Lib.Lookup.getElem?_insert, if_neg (Ne.symm h)]

/-- Each occurrence in the list delivers once more. -/
theorem deliverAll_getElem? (ids : List String) (id : String) :
    (ids.foldl (deliver max msg) subscribers)[id]?
      = subscribers[id]?.map (receive max msg)^[ids.count id] := by
  induction ids generalizing subscribers with
  | nil => simp
  | cons other ids ih =>
      rw [List.foldl_cons, ih, deliver_getElem?, List.count_cons]
      by_cases h : other = id
      · rw [if_pos h, if_pos (by simpa using h), Option.map_map, Function.iterate_succ]
      · rw [if_neg h, if_neg (by simpa using h)]
        rfl

end

theorem publish_queue (p : PubSub) (now : Nat) {channel : String} (message id : String)
    (h : channel ≠ "") : (p.publish now channel message).2.subscribers[id]?
      = p.subscribers[id]?.map (receive p.maxMessagesPerSubscriber
          ⟨channel, message, now⟩)^[(p.listSubscribers channel).count id] := by
  unfold publish
  rw [if_neg h]
  exact deliverAll_getElem? _ _ _ _ _

/-! ## Who is subscribed -/

/-- How often a subscriber has subscribed since it last unsubscribed. -/
def recount (channel id : String) (n : Nat) : PubSubOp → Nat
  | .subscribe c i => if c = channel ∧ i = id ∧ channel ≠ "" then n + 1 else n
  | .unsubscribe c i => if c = channel ∧ i = id then 0 else n
  | .publish _ _ _ | .pollMessages _ _ => n

/-- How often the identifier is subscribed to the channel after these calls. -/
def subscriptions (channel id : String) (ops : List PubSubOp) : Nat :=
  ops.foldl (recount channel id) 0

theorem listSubscribers_insert (p : PubSub) (channel other : String) (ids : List String)
    (queues : Std.ExtTreeMap String (List PubSubMessage) compare) :
    ({ p with channels := p.channels.insert other ids, subscribers := queues } : PubSub).listSubscribers
      channel = if other = channel then ids else p.listSubscribers channel := by
  unfold listSubscribers
  rw [Lib.Lookup.getElem?_insert]
  by_cases h : other = channel
  · rw [if_pos h.symm, if_pos h]
    rfl
  · rw [if_neg (Ne.symm h), if_neg h]

theorem subscribe_listSubscribers (p : PubSub) (channel other id : String) :
    (p.subscribe other id).2.listSubscribers channel
      = if other = channel ∧ channel ≠ "" then p.listSubscribers channel ++ [id]
        else p.listSubscribers channel := by
  unfold subscribe
  split
  · next hempty =>
      rw [if_neg]
      rintro ⟨rfl, hne⟩
      exact hne hempty
  · next hne =>
      simp only [listSubscribers_insert]
      by_cases h : other = channel
      · subst h
        simp [hne, listSubscribers]
      · simp [h]

theorem unsubscribe_listSubscribers (p : PubSub) (channel other id : String) :
    (p.unsubscribe other id).listSubscribers channel
      = if other = channel then (p.listSubscribers channel).filter (· ≠ id)
        else p.listSubscribers channel := by
  unfold unsubscribe
  cases hids : p.channels[other]? with
  | none =>
      -- a channel that is not there has no subscribers
      simp only
      split
      · next h =>
          subst h
          simp [listSubscribers, hids]
      · rfl
  | some ids =>
      simp only
      split
      · next hrest =>
          -- nobody is left, and the channel goes
          unfold listSubscribers
          rw [Lib.Lookup.getElem?_erase]
          by_cases h : other = channel
          · subst h
            rw [if_pos rfl, if_pos rfl, hids]
            exact hrest.symm
          · rw [if_neg (Ne.symm h), if_neg h]
      · rw [listSubscribers_insert]
        split
        · next h =>
            subst h
            simp [listSubscribers, hids]
        · rfl

theorem step_count (p : PubSub) (channel id : String) (op : PubSubOp) :
    ((p.step op).listSubscribers channel).count id
      = recount channel id ((p.listSubscribers channel).count id) op := by
  cases op with
  | subscribe other i =>
      simp only [step, recount, subscribe_listSubscribers]
      by_cases h : other = channel ∧ channel ≠ ""
      · rw [if_pos h, List.count_append, List.count_singleton]
        by_cases hi : i = id <;> simp [h.1, h.2, hi]
      · rw [if_neg h, if_neg fun hall => h ⟨hall.1, hall.2.2⟩]
  | unsubscribe other i =>
      simp only [step, recount, unsubscribe_listSubscribers]
      by_cases h : other = channel
      · rw [if_pos h]
        by_cases hi : i = id
        · rw [if_pos ⟨h, hi⟩, hi, List.count_eq_zero]
          simp
        · rw [if_neg fun hall => hi hall.2, List.count_filter]
          simpa using fun heq => hi heq.symm
      · rw [if_neg h, if_neg fun hall => h hall.1]
  | publish now other message =>
      simp only [step, recount, publish]
      split <;> rfl
  | pollMessages i limit =>
      simp only [step, recount, pollMessages]
      split <;> rfl

/-- The channel lists count the subscriptions. -/
theorem count_listSubscribers (channel id : String) (ops : List PubSubOp) :
    ((ops.foldl step {}).listSubscribers channel).count id = subscriptions channel id ops := by
  have hrun : ∀ p : PubSub, ((ops.foldl step p).listSubscribers channel).count id
      = ops.foldl (recount channel id) ((p.listSubscribers channel).count id) := by
    induction ops with
    | nil => intro p; rfl
    | cons op ops ih =>
        intro p
        rw [List.foldl_cons, List.foldl_cons, ih, step_count]
  rw [hrun]
  rfl

/-! ## Every subscriber has a queue -/

/-- Those in the channel lists have queues. -/
def Queued (p : PubSub) : Prop := ∀ channel, ∀ id ∈ p.listSubscribers channel, id ∈ p.subscribers

theorem mem_subscribers_iff {p : PubSub} {id : String} :
    id ∈ p.subscribers ↔ p.subscribers[id]? ≠ none := by
  rw [Std.ExtTreeMap.mem_iff_isSome_getElem?, Option.isSome_iff_ne_none]

/-- No queue is taken away. -/
theorem mem_subscribers_step {p : PubSub} {id : String} (h : id ∈ p.subscribers) (op : PubSubOp) :
    id ∈ (p.step op).subscribers := by
  cases op with
  | subscribe channel i =>
      simp only [step, subscribe]
      split
      · exact h
      · simp only
        split
        · exact h
        · exact Std.ExtTreeMap.mem_insert.mpr (.inr h)
  | unsubscribe channel i =>
      simp only [step, unsubscribe]
      split <;> exact h
  | publish now channel message =>
      by_cases hchannel : channel = ""
      · simp only [step, publish, if_pos hchannel]
        exact h
      · rw [mem_subscribers_iff] at h ⊢
        show (p.publish now channel message).2.subscribers[id]? ≠ none
        rw [publish_queue p now message id hchannel, ne_eq, Option.map_eq_none_iff]
        exact h
  | pollMessages i limit =>
      simp only [step, pollMessages]
      split
      · exact Std.ExtTreeMap.mem_insert.mpr (.inr h)
      · exact h

theorem step_queued {p : PubSub} (h : p.Queued) (op : PubSubOp) : (p.step op).Queued := by
  intro channel id hid
  by_cases hold : id ∈ p.listSubscribers channel
  · exact mem_subscribers_step (h channel id hold) op
  · -- only a subscription brings a subscriber in
    have hcount := step_count p channel id op
    rw [List.count_eq_zero.mpr hold] at hcount
    have hpos : 0 < recount channel id 0 op := hcount ▸ List.count_pos_iff.mpr hid
    cases op with
    | subscribe other i =>
        have hboth : other = channel ∧ i = id ∧ channel ≠ "" := by
          by_contra hnot
          simp [recount, hnot] at hpos
        obtain ⟨rfl, rfl, hne⟩ := hboth
        simp only [step, subscribe, if_neg hne]
        split
        · next hin => exact hin
        · exact Std.ExtTreeMap.mem_insert_self
    | unsubscribe other i =>
        simp only [recount] at hpos
        split at hpos <;> omega
    | publish now other message | pollMessages i limit => exact absurd hpos (Nat.lt_irrefl 0)

theorem run_queued (ops : List PubSubOp) : (ops.foldl step ({} : PubSub)).Queued := by
  refine Lib.Run.foldl_of_step Queued (fun _ op h => step_queued h op) (fun channel id hid => ?_) ops
  simp [listSubscribers] at hid

/-! ## Exactly once -/

/-- Those who are subscribed to the channel. -/
def subscribed (channel : String) (ops : List PubSubOp) : Set String :=
  {id | 0 < subscriptions channel id ops}

/-- The publish is counted and delivered once for each of these subscribers and for nobody else. -/
structure DeliversOnce (p : PubSub) (now : Nat) (channel message : String) (to_ : Set String) :
    Prop where
  answer : (p.publish now channel message).1 = .ok to_.ncard
  members : ∀ id ∈ to_, (p.publish now channel message).2.subscribers[id]?
    = some (receive p.maxMessagesPerSubscriber ⟨channel, message, now⟩ (p.queue id))
  others : ∀ id ∉ to_, (p.publish now channel message).2.subscribers[id]? = p.subscribers[id]?

theorem subscribed_eq (channel : String) (ops : List PubSubOp) :
    subscribed channel ops = ((ops.foldl step {}).listSubscribers channel).toFinset := by
  ext id
  rw [subscribed, Set.mem_ofPred_eq, ← count_listSubscribers, List.count_pos_iff, Finset.mem_coe,
    List.mem_toFinset]

/-- After any run, a publish is delivered exactly once if and only if nobody has subscribed twice to
the channel since it last unsubscribed. -/
theorem publish_once_iff (ops : List PubSubOp) (now : Nat) {channel : String} (message : String)
    (h : channel ≠ "") :
    DeliversOnce (ops.foldl step {}) now channel message (subscribed channel ops) ↔
      ∀ id, subscriptions channel id ops ≤ 1 := by
  have hqueued := run_queued ops channel
  have hset := subscribed_eq channel ops
  simp only [← count_listSubscribers]
  generalize ops.foldl step ({} : PubSub) = p at *
  rw [← List.nodup_iff_count_le_one]
  have hanswer : (p.publish now channel message).1 = .ok (p.listSubscribers channel).length := by
    unfold publish
    rw [if_neg h]
    rfl
  have hcard : (subscribed channel ops).ncard = (p.listSubscribers channel).toFinset.card := by
    rw [hset]
    exact Set.ncard_coe_finset _
  constructor
  · intro honce
    have hlength := honce.answer
    rw [hanswer, hcard, Except.ok.injEq] at hlength
    exact Multiset.coe_nodup.mp (Multiset.toFinset_card_eq_card_iff_nodup.mp hlength.symm)
  · intro hnodup
    have hmem : ∀ id, id ∈ subscribed channel ops ↔ id ∈ p.listSubscribers channel := fun id => by
      rw [hset]
      simp
    refine ⟨?_, fun id hid => ?_, fun id hid => ?_⟩
    · rw [hanswer, hcard, List.toFinset_card_of_nodup hnodup]
    · rw [publish_queue p now message id h,
        List.count_eq_one_of_mem hnodup ((hmem id).mp hid), Function.iterate_one]
      have hfound := mem_subscribers_iff.mp (hqueued id ((hmem id).mp hid))
      obtain ⟨messages, hmessages⟩ := Option.ne_none_iff_exists'.mp hfound
      rw [queue, hmessages]
      rfl
    · rw [publish_queue p now message id h,
        List.count_eq_zero.mpr fun hin => hid ((hmem id).mpr hin), Function.iterate_zero]
      exact Option.map_id'

/-- In a run every publish is delivered exactly once, to the subscribers of its channel only, if and
only if none of them finds anybody who has subscribed twice. A publish without a channel is refused. -/
theorem exactly_once_iff (ops : List PubSubOp) :
    (∀ pre now channel message post, ops = pre ++ .publish now channel message :: post →
      channel ≠ "" →
        DeliversOnce (pre.foldl step {}) now channel message (subscribed channel pre)) ↔
    (∀ pre now channel message post, ops = pre ++ .publish now channel message :: post →
      channel ≠ "" → ∀ id, subscriptions channel id pre ≤ 1) := by
  constructor <;> intro h pre now channel message post hops hchannel
  · exact (publish_once_iff pre now message hchannel).mp (h pre now channel message post hops hchannel)
  · exact (publish_once_iff pre now message hchannel).mpr
      (h pre now channel message post hops hchannel)

/-- A subscriber that subscribes twice is counted as two and is sent the message twice. -/
theorem subscribed_twice :
    let ops := [PubSubOp.subscribe "news" "ann", .subscribe "news" "ann"]
    let p : PubSub := ops.foldl step {}
    (p.publish 7 "news" "hi").1 = .ok 2 ∧
      (p.publish 7 "news" "hi").2.queue "ann" = [⟨"news", "hi", 7⟩, ⟨"news", "hi", 7⟩] ∧
      subscribed "news" ops = {"ann"} ∧
      ¬ DeliversOnce p 7 "news" "hi" (subscribed "news" ops) := by
  intro ops p
  refine ⟨by decide +kernel, by decide +kernel, ?_, fun honce => ?_⟩
  · ext id
    rw [subscribed, Set.mem_ofPred_eq, Set.mem_singleton_iff]
    constructor
    · intro hpos
      by_contra hne
      simp [ops, subscriptions, recount, Ne.symm hne] at hpos
    · rintro rfl
      decide
  · exact absurd ((publish_once_iff ops 7 "hi" (by decide)).mp honce "ann") (by decide)

end PubSub

end Daikon
