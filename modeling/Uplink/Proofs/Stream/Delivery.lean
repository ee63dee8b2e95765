import Mathlib.Algebra.Order.Ring.Nat
import Mathlib.Data.List.Induction
import Mathlib.Data.List.Nodup
import Mathlib.Data.List.Perm.Basic
import Uplink.Proofs.Stream.Reading
import Uplink.Proofs.Stream.Subscription

/-! What receivers get. The account of a channel is drawn up from nothing but the messages that are
offered while the channel is subscribed, and the moments at which its own receiver takes one. What a
receiver has taken and what its buffer holds are together the messages that found room; every other
message is counted as dropped. -/

namespace Uplink.Stream

/-- What concerns a channel, of all that a history notes. -/
inductive Mark where
  | subscribed (topic : String) (id : ChannelId)
  | unsubscribed (topic : String)
  | cleared
  | offered (value : Variant)
  | taken
  | receiverDropped

/-- What an event is to a channel. The receivers of other channels do not concern it. -/
def Event.mark? (id : ChannelId) : Event → Option Mark
  | .subscribed topic i => some (.subscribed topic i)
  | .unsubscribed topic => some (.unsubscribed topic)
  | .cleared => some .cleared
  | .offered v _ => some (.offered v)
  | .received i _ => if i = id then some .taken else none
  | .receiverDropped i => if i = id then some .receiverDropped else none
  | _ => none

theorem Event.mark?_eq_taken {id : ChannelId} {e : Event} (h : e.mark? id = some .taken) :
    ∃ v, e = .received id v := by
  cases e with
  | received i v =>
    by_cases hi : i = id
    · exact ⟨v, hi ▸ rfl⟩
    · simp [mark?, hi] at h
  | receiverDropped i => simp [mark?] at h
  | _ => cases h

theorem Event.mark?_eq_offered {id : ChannelId} {e : Event} {v : Variant}
    (h : e.mark? id = some (.offered v)) : ∃ offers, e = .offered v offers := by
  cases e with
  | offered u offers => cases h; exact ⟨offers, rfl⟩
  | received i u | receiverDropped i => simp [mark?] at h
  | _ => cases h

/-- Whether an event tells of subscriptions or of receivers. -/
def Event.isOfSubscriptions : Event → Bool
  | .offered .. | .subscribed .. | .unsubscribed _ | .cleared | .forgot _ | .received ..
  | .receiverDropped _ => true
  | _ => false

/-- The account of a channel. -/
structure Account where
  /-- Whether the channel is subscribed and has its receiver. -/
  attached : Bool
  /-- The messages that were offered meanwhile, each with the number of messages in the buffer that
  it met. -/
  offered : List (Variant × Nat)
  /-- How many messages the receiver has taken. -/
  taken : Nat

namespace Account

def empty : Account := ⟨false, [], 0⟩

/-- The messages that met fewer than the capacity. -/
def delivered (capacity : Nat) (a : Account) : List Variant :=
  (a.offered.filter (·.2 < capacity)).map Prod.fst

/-- How many messages met no less than the capacity. -/
def dropped (capacity : Nat) (a : Account) : Nat := a.offered.countP (capacity ≤ ·.2)

/-- How many messages the buffer holds. -/
def held (capacity : Nat) (a : Account) : Nat := (a.delivered capacity).length - a.taken

/-- A channel is attached from its subscription to a topic until the topic is subscribed again or
unsubscribed, all subscriptions are cleared or the receiver is dropped. -/
def add (capacity : Nat) (topic : String) (id : ChannelId) (a : Account) : Mark → Account
  | .subscribed t i =>
    if i = id then { a with attached := true }
    else if t = topic then { a with attached := false }
    else a
  | .unsubscribed t => if t = topic then { a with attached := false } else a
  | .cleared | .receiverDropped => { a with attached := false }
  | .offered v =>
    if a.attached then { a with offered := a.offered ++ [(v, a.held capacity)] } else a
  | .taken => { a with taken := a.taken + 1 }

variable {capacity : Nat} {topic : String} {id : ChannelId} {a : Account} {m : Mark}

theorem taken_add (h : m ≠ .taken) : (a.add capacity topic id m).taken = a.taken := by
  unfold add
  split
  · split
    · rfl
    · split <;> rfl
  · split <;> rfl
  · rfl
  · rfl
  · split <;> rfl
  · exact absurd rfl h

theorem offered_add (h : ∀ v, m ≠ .offered v) :
    (a.add capacity topic id m).offered = a.offered := by
  unfold add
  split
  · split
    · rfl
    · split <;> rfl
  · split <;> rfl
  · rfl
  · rfl
  · exact absurd rfl (h _)
  · rfl

theorem dropped_add_offered (v : Variant) :
    (a.add capacity topic id (.offered v)).dropped capacity = a.dropped capacity +
      if (a.attached && decide (capacity ≤ a.held capacity)) = true then 1 else 0 := by
  simp only [add]
  split
  · next hattached => simp [dropped, hattached, List.countP_cons]
  · next hattached => simp [hattached]

end Account

/-- Counting adds one for each member that counts. -/
theorem sum_map_add_countP {α : Type u} (f : α → Nat) (p : α → Bool) (l : List α) :
    (l.map fun x => f x + if p x = true then 1 else 0).sum = (l.map f).sum + l.countP p := by
  induction l with
  | nil => rfl
  | cons x l ih =>
    rw [List.map_cons, List.sum_cons, ih, List.map_cons, List.sum_cons, List.countP_cons]
    omega

namespace Connection

/-- What concerns a channel in a history. -/
def marks (id : ChannelId) (history : List Event) : List Mark := history.filterMap (Event.mark? id)

/-- The account of a channel of a topic, drawn up from a history. -/
def account (capacity : Nat) (topic : String) (id : ChannelId) (history : List Event) : Account :=
  (marks id history).foldl (Account.add capacity topic id) .empty

/-- What the receiver of a channel has taken. -/
def taken (id : ChannelId) (history : List Event) : List Variant :=
  history.filterMap fun
    | .received i v => if i = id then some v else none
    | _ => none

/-- The channels that were made, each with its topic. -/
def subscribedTo (history : List Event) : List (String × ChannelId) :=
  history.filterMap fun
    | .subscribed topic id => some (topic, id)
    | _ => none

variable {c c' : Connection} {history events : List Event} {t : Task} {e : Ending}
  {next : Option Ending} {m : Move} {capacity : Nat} {topic : String} {id : Nat}

/-- What a transition means for the subscriptions. -/
inductive SubscriptionStep (c c' : Connection) : List Event → Prop where
  | idle {events : List Event} : c'.subscriptions = c.subscriptions →
      c'.counters.dropped = c.counters.dropped → (∀ e ∈ events, e.isOfSubscriptions = false) →
      SubscriptionStep c c' events
  | offer (v : Variant) :
      c'.subscriptions = c.subscriptions.offer c.settings.channelCapacity.toNat v →
      c'.counters.dropped = c.counters.dropped + Subscriptions.droppedCount
        (c.subscriptions.offers c.settings.channelCapacity.toNat) →
      SubscriptionStep c c'
        [.offered v (c.subscriptions.offers c.settings.channelCapacity.toNat)]
  | forget (topics : List String) : c'.subscriptions = c.subscriptions.forgetAll topics →
      c'.counters.dropped = c.counters.dropped → SubscriptionStep c c' [.forgot topics]
  | clear : c'.subscriptions = c.subscriptions.clear →
      c'.counters.dropped = c.counters.dropped → SubscriptionStep c c' [.cleared]
  | subscribe (topic : String) : c'.subscriptions = (c.subscriptions.subscribe topic).1 →
      c'.counters.dropped = c.counters.dropped →
      SubscriptionStep c c' [.subscribed topic c.subscriptions.channels.length]
  | unsubscribe (topic : String) : c'.subscriptions = c.subscriptions.unsubscribe topic →
      c'.counters.dropped = c.counters.dropped → SubscriptionStep c c' [.unsubscribed topic]
  | receive {id : ChannelId} {v : Variant} {rest : Subscriptions} :
      c.subscriptions.receive? id = some (v, rest) → c'.subscriptions = rest →
      c'.counters.dropped = c.counters.dropped → SubscriptionStep c c' [.received id v]
  | dropReceiver (id : ChannelId) : c'.subscriptions = c.subscriptions.dropReceiver id →
      c'.counters.dropped = c.counters.dropped → SubscriptionStep c c' [.receiverDropped id]

theorem isOfSubscriptions_write {p : Prop} [Decidable p] (s : SocketId) (f : Outbound) :
    (if p then Event.wrote s f else .writeFailed s f).isOfSubscriptions = false := by split <;> rfl

/-- Ending a stream leaves its subscriptions as they are, or clears them. -/
theorem EndingStep.subscriptions (h : EndingStep c t e c' next events) :
    c'.counters = c.counters ∧ (c'.subscriptions = c.subscriptions ∧
      (∀ e ∈ events, e.isOfSubscriptions = false) ∨
      c'.subscriptions = c.subscriptions.clear ∧ events = [.cleared] ∧ next = some .waiting) := by
  cases h with
  | clear => exact ⟨rfl, .inr ⟨rfl, rfl, rfl⟩⟩
  | say => exact ⟨rfl, .inl ⟨rfl, by simp [isOfSubscriptions_write]⟩⟩
  | shut => exact ⟨rfl, .inl ⟨rfl, by simp⟩⟩
  | _ => exact ⟨rfl, .inl ⟨rfl, by simp [Event.isOfSubscriptions]⟩⟩

/-- A step that does to the subscriptions what ending the stream does. -/
theorem SubscriptionStep.of_ending {d : Connection} (h : EndingStep c t e d next events)
    (hsubscriptions : c'.subscriptions = d.subscriptions) (hcounters : c'.counters = d.counters) :
    SubscriptionStep c c' events := by
  obtain ⟨hd, ⟨hsame, hevents⟩ | ⟨hcleared, rfl, -⟩⟩ := h.subscriptions
  · exact .idle (hsubscriptions.trans hsame) (by rw [hcounters, hd]) hevents
  · exact .clear (hsubscriptions.trans hcleared) (by rw [hcounters, hd])

theorem SubscriptionStep.of_readerStep (h : ReaderStep c c' events) :
    SubscriptionStep c c' events := by
  cases h with
  | read f => cases f <;> exact .idle rfl rfl (by simp [readFrame, Event.isOfSubscriptions])
  | offer => exact .offer _ rfl rfl
  | forget => exact .forget _ rfl rfl
  | pong => exact .idle rfl rfl (by simp [isOfSubscriptions_write])
  | ending _ hending => exact .of_ending hending rfl rfl
  | _ => exact .idle rfl rfl (by simp [Event.isOfSubscriptions])

theorem SubscriptionStep.of_closeStep {n : CallId} (h : CloseStep c n c' events) :
    SubscriptionStep c c' events := by
  cases h with
  | abort =>
    obtain ⟨_, _, habort⟩ := abort_frame [_] c
    rw [List.foldl_cons, List.foldl_nil] at habort
    rw [habort]
    exact .idle rfl rfl (by simp [Event.isOfSubscriptions])
  | ending _ hending => exact .of_ending hending rfl rfl
  | ended _ hending =>
    -- The subscriptions are not cleared in the last step.
    obtain ⟨hcounters, ⟨hsame, hevents⟩ | ⟨-, -, hnext⟩⟩ := hending.subscriptions
    · refine .idle hsame (congrArg _ hcounters) fun e he => ?_
      rcases List.mem_append.mp he with he | he
      · exact hevents e he
      · rw [List.mem_singleton.mp he]; rfl
    · cases hnext
  | _ => exact .idle rfl rfl (by simp [Event.isOfSubscriptions])

theorem SubscriptionStep.of_transition (h : Transition c m c' events) :
    SubscriptionStep c c' events := by
  cases h with
  | @suspend t => cases t <;> exact .idle rfl rfl (by simp)
  | reader h => exact .of_readerStep h
  | heartbeat h =>
    cases h with
    | ending _ hending => exact .of_ending hending rfl rfl
    | _ => exact .idle rfl rfl (by simp [Event.isOfSubscriptions])
  | sending h => cases h <;> exact .idle rfl rfl (by simp [Event.isOfSubscriptions])
  | closing h => exact .of_closeStep h
  | reapReader =>
    refine .idle rfl rfl ?_
    unfold abandoned
    split <;> simp [Event.isOfSubscriptions]
  | dropHandle =>
    obtain ⟨_, _, habort⟩ := abort_frame c.tasks { c with cancelled := true, tasks := [] }
    rw [habort]
    exact .idle rfl rfl (by simp [Event.isOfSubscriptions])
  | subscribe topic => exact .subscribe topic rfl rfl
  | unsubscribe topic => exact .unsubscribe topic rfl rfl
  | receive h => exact .receive h rfl rfl
  | dropReceiver id => exact .dropReceiver id rfl rfl
  | _ => exact .idle rfl rfl (by simp [Event.isOfSubscriptions])

/-! ### Accounts -/

/-- What is read off the events of subscriptions reads nothing off the others. -/
theorem filterMap_idle {β : Type} {f : Event → Option β}
    (hf : ∀ e, e.isOfSubscriptions = false → f e = none)
    (h : ∀ e ∈ events, e.isOfSubscriptions = false) : events.filterMap f = [] :=
  List.filterMap_eq_nil_iff.mpr fun e he => hf e (h e he)

theorem account_append (events : List Event) : account capacity topic id (history ++ events) =
    (marks id events).foldl (Account.add capacity topic id)
      (account capacity topic id history) := by
  rw [account, marks, List.filterMap_append, List.foldl_append]
  rfl

theorem account_idle (h : ∀ e ∈ events, e.isOfSubscriptions = false) :
    account capacity topic id (history ++ events) = account capacity topic id history := by
  have hnone : marks id events = [] :=
    filterMap_idle (fun e he => by cases e <;> first | rfl | cases he) h
  rw [account_append, hnone, List.foldl_nil]

theorem taken_append (events : List Event) :
    taken id (history ++ events) = taken id history ++ taken id events := List.filterMap_append

theorem taken_idle (h : ∀ e ∈ events, e.isOfSubscriptions = false) :
    taken id (history ++ events) = taken id history := by
  have hnone : taken id events = [] :=
    filterMap_idle (fun e he => by cases e <;> first | rfl | cases he) h
  rw [taken_append, hnone, List.append_nil]

theorem subscribedTo_append (events : List Event) :
    subscribedTo (history ++ events) = subscribedTo history ++ subscribedTo events :=
  List.filterMap_append

theorem subscribedTo_idle (h : ∀ e ∈ events, e.isOfSubscriptions = false) :
    subscribedTo (history ++ events) = subscribedTo history := by
  have hnone : subscribedTo events = [] :=
    filterMap_idle (fun e he => by cases e <;> first | rfl | cases he) h
  rw [subscribedTo_append, hnone, List.append_nil]

theorem mem_subscribedTo : (topic, id) ∈ subscribedTo history ↔ .subscribed topic id ∈ history := by
  rw [subscribedTo, List.mem_filterMap]
  constructor
  · rintro ⟨e, he, heq⟩
    split at heq
    · cases heq; exact he
    · cases heq
  · exact fun h => ⟨_, h, rfl⟩

theorem account_snoc_none {e : Event} (h : e.mark? id = none) :
    account capacity topic id (history ++ [e]) = account capacity topic id history := by
  rw [account_append, marks, List.filterMap_cons_none h, List.filterMap_nil, List.foldl_nil]

theorem account_snoc_some {e : Event} {m : Mark} (h : e.mark? id = some m) :
    account capacity topic id (history ++ [e]) =
      (account capacity topic id history).add capacity topic id m := by
  rw [account_append, marks, List.filterMap_cons_some h, List.filterMap_nil, List.foldl_cons,
    List.foldl_nil]

theorem taken_eq_nil {e : Event} (h : e.mark? id ≠ some .taken) : taken id [e] = [] := by
  cases e with
  | received i v =>
    have hi : i ≠ id := fun hi => h (by rw [Event.mark?, if_pos hi])
    simp [taken, hi]
  | _ => rfl

theorem account_taken (history : List Event) :
    (account capacity topic id history).taken = (taken id history).length := by
  induction history using List.reverseRecOn with
  | nil => rfl
  | append_singleton history e ih =>
    rw [taken_append, List.length_append, ← ih]
    by_cases htaken : e.mark? id = some .taken
    · rw [account_snoc_some htaken]
      obtain ⟨v, rfl⟩ := Event.mark?_eq_taken htaken
      simp [Account.add, taken]
    · rw [taken_eq_nil htaken]
      cases hm : e.mark? id with
      | none => rw [account_snoc_none hm]; rfl
      | some m => rw [account_snoc_some hm, Account.taken_add fun heq => htaken (heq ▸ hm)]; rfl

/-- What is in an account was offered, in the order in which all messages were. -/
theorem account_offered (history : List Event) :
    ((account capacity topic id history).offered.map Prod.fst).Sublist
      (messagesOffered history) := by
  induction history using List.reverseRecOn with
  | nil => exact List.Sublist.refl _
  | append_singleton history e ih =>
    have hsplit : messagesOffered (history ++ [e]) =
        messagesOffered history ++ messagesOffered [e] := List.filterMap_append
    rw [hsplit]
    cases hm : e.mark? id with
    | none => rw [account_snoc_none hm]; exact ih.trans (List.sublist_append_left _ _)
    | some m =>
      rw [account_snoc_some hm]
      by_cases hoffered : ∃ v, m = .offered v
      · obtain ⟨v, rfl⟩ := hoffered
        obtain ⟨offers, rfl⟩ := Event.mark?_eq_offered hm
        simp only [Account.add]
        split
        · rw [List.map_append]
          exact ih.append (List.Sublist.refl _)
        · exact ih.trans (List.sublist_append_left _ _)
      · rw [Account.offered_add fun v hv => hoffered ⟨v, hv⟩]
        exact ih.trans (List.sublist_append_left _ _)

/-! ### One step -/

/-- The accounts of all channels are right, in a state after a history. -/
structure Accounted (capacity : Nat) (c : Connection) (history : List Event) : Prop where
  capacity_eq : c.settings.channelCapacity.toNat = capacity
  ids : (subscribedTo history).map Prod.snd = List.range c.subscriptions.channels.length
  topics : ∀ topic id, c.subscriptions.topics.get? topic = some id →
    (topic, id) ∈ subscribedTo history
  attached : ∀ topic id, (topic, id) ∈ subscribedTo history →
    ((account capacity topic id history).attached = true ↔
      c.subscriptions.topics.get? topic = some id ∧ c.subscriptions.hasReceiver id = true)
  content : ∀ topic id, (topic, id) ∈ subscribedTo history →
    c.subscriptions.hasReceiver id = true →
    taken id history ++ c.subscriptions.buffer id =
      (account capacity topic id history).delivered capacity
  fresh : ∀ topic id, c.subscriptions.channels.length ≤ id →
    (account capacity topic id history).attached = false ∧
      (account capacity topic id history).offered = [] ∧ taken id history = []
  dropped : c.counters.dropped = ((subscribedTo history).map fun p =>
    (account capacity p.1 p.2 history).dropped capacity).sum

namespace Accounted

variable (h : Accounted capacity c history)
include h

theorem nodup_ids : ((subscribedTo history).map Prod.snd).Nodup := h.ids ▸ List.nodup_range

theorem lt_length (hmem : (topic, id) ∈ subscribedTo history) :
    id < c.subscriptions.channels.length := by
  have hid : id ∈ (subscribedTo history).map Prod.snd := List.mem_map_of_mem hmem
  rw [h.ids] at hid
  exact List.mem_range.mp hid

/-- A channel was made for one topic only. -/
theorem topic_unique {t : String} (hmem : (topic, id) ∈ subscribedTo history)
    (hother : (t, id) ∈ subscribedTo history) : t = topic :=
  congrArg Prod.fst (List.inj_on_of_nodup_map h.nodup_ids hother hmem rfl)

theorem held_eq (hmem : (topic, id) ∈ subscribedTo history)
    (hreceiver : c.subscriptions.hasReceiver id = true) :
    (account capacity topic id history).held capacity = (c.subscriptions.buffer id).length := by
  rw [Account.held, ← h.content topic id hmem hreceiver, account_taken, List.length_append]
  omega

theorem isSubscribed_iff (hmem : (topic, id) ∈ subscribedTo history) :
    c.subscriptions.isSubscribed id = true ↔ c.subscriptions.topics.get? topic = some id := by
  rw [Subscriptions.isSubscribed_iff]
  constructor
  · rintro ⟨t, ht⟩
    exact h.topic_unique hmem (h.topics t id ht) ▸ ht
  · exact fun htopic => ⟨topic, htopic⟩

/-- The channels without room are those whose accounts say so. -/
theorem droppedCount_eq : Subscriptions.droppedCount (c.subscriptions.offers capacity) =
    (subscribedTo history).countP fun p => (account capacity p.1 p.2 history).attached &&
      decide (capacity ≤ (account capacity p.1 p.2 history).held capacity) := by
  have hkeys := c.subscriptions.topics.nodup_entries
  have hoffers : Subscriptions.droppedCount (c.subscriptions.offers capacity) =
      (c.subscriptions.topics.entries.filter fun p =>
        ((c.subscriptions.channels[p.2]?).map (Channel.offer capacity)).getD .noReceiver
          == .dropped).length := by
    rw [Subscriptions.droppedCount, Subscriptions.offers, List.filter_map, List.length_map]
    rfl
  rw [hoffers, List.countP_eq_length_filter]
  refine List.Perm.length_eq ((List.perm_ext_iff_of_nodup (hkeys.filter _)
    ((List.Nodup.of_map _ h.nodup_ids).filter _)).mpr fun p => ?_)
  obtain ⟨topic, id⟩ := p
  rw [List.mem_filter, List.mem_filter, ← KeyMap.get?_eq_some_iff]
  constructor
  · rintro ⟨hget, hdropped⟩
    have hmem := h.topics topic id hget
    have hdropped : ((c.subscriptions.channels[id]?).map (Channel.offer capacity)).getD .noReceiver
        = .dropped := by simpa using hdropped
    cases hc : c.subscriptions.channels[id]? with
    | none => rw [hc] at hdropped; cases hdropped
    | some channel =>
      rw [hc, Option.map_some, Option.getD_some, Channel.offer_eq_dropped_iff] at hdropped
      have hreceiver : c.subscriptions.hasReceiver id = true := by
        rw [Subscriptions.hasReceiver, hc]; exact hdropped.1
      have hbuffer : c.subscriptions.buffer id = channel.buffer := by
        rw [Subscriptions.buffer, hc]; rfl
      simp only [(h.attached topic id hmem).mpr ⟨hget, hreceiver⟩, h.held_eq hmem hreceiver,
        hbuffer, hdropped.2, decide_true, Bool.and_self, and_true]
      exact hmem
  · rintro ⟨hmem, hfull⟩
    obtain ⟨hattached, hfull⟩ := (Bool.and_eq_true _ _).mp hfull
    obtain ⟨hget, hreceiver⟩ := (h.attached topic id hmem).mp hattached
    refine ⟨hget, ?_⟩
    have hle : capacity ≤ (c.subscriptions.buffer id).length := by
      rw [← h.held_eq hmem hreceiver]; exact of_decide_eq_true hfull
    have hoffer : Channel.offer capacity ⟨c.subscriptions.buffer id, true⟩ = .dropped :=
      Channel.offer_eq_dropped_iff.mpr ⟨rfl, hle⟩
    simp [Subscriptions.exists_of_hasReceiver hreceiver, hoffer]

theorem idle (hsettings : c'.settings = c.settings) (hsubs : c'.subscriptions = c.subscriptions)
    (hdropped : c'.counters.dropped = c.counters.dropped)
    (hevents : ∀ e ∈ events, e.isOfSubscriptions = false) :
    Accounted capacity c' (history ++ events) := by
  refine ⟨hsettings ▸ h.capacity_eq, ?_, ?_, ?_, ?_, ?_, ?_⟩ <;>
    simp only [account_idle hevents, taken_idle hevents, subscribedTo_idle hevents, hsubs, hdropped]
  · exact h.ids
  · exact h.topics
  · exact h.attached
  · exact h.content
  · exact h.fresh
  · exact h.dropped

/-- A message that is offered goes to the attached channels that have room, and counts as dropped at
the others. -/
theorem offer {v : Variant} {offers : List (String × ChannelId × Offer)}
    (hsettings : c'.settings = c.settings)
    (hsubs : c'.subscriptions = c.subscriptions.offer capacity v)
    (hdropped : c'.counters.dropped = c.counters.dropped +
      Subscriptions.droppedCount (c.subscriptions.offers capacity)) :
    Accounted capacity c' (history ++ [.offered v offers]) := by
  have haccount : ∀ topic id, account capacity topic id (history ++ [.offered v offers]) =
      (account capacity topic id history).add capacity topic id (.offered v) :=
    fun topic id => account_snoc_some rfl
  have htaken : ∀ id, taken id (history ++ [.offered v offers]) = taken id history :=
    fun id => (taken_append _).trans (List.append_nil _)
  have hsubscribed : subscribedTo (history ++ [.offered v offers]) = subscribedTo history :=
    (subscribedTo_append _).trans (List.append_nil _)
  have hattached : ∀ topic id,
      (account capacity topic id (history ++ [.offered v offers])).attached =
      (account capacity topic id history).attached := by
    intro topic id
    rw [haccount, Account.add]
    split <;> rfl
  have hlength : (c.subscriptions.offer capacity v).channels.length =
      c.subscriptions.channels.length := List.length_mapIdx
  refine ⟨hsettings ▸ h.capacity_eq, ?_, ?_, ?_, ?_, ?_, ?_⟩ <;>
    simp only [hsubs, hsubscribed, htaken, hattached, hlength, Subscriptions.hasReceiver_offer]
  · exact h.ids
  · exact h.topics
  · exact h.attached
  · intro topic id hmem hreceiver
    rw [haccount]
    by_cases hatt : (account capacity topic id history).attached = true
    · have hget := ((h.attached topic id hmem).mp hatt).1
      have hsub := (h.isSubscribed_iff hmem).mpr hget
      simp only [Account.add, hatt, if_true, Account.delivered, List.filter_append, List.map_append,
        h.held_eq hmem hreceiver]
      by_cases hroom : (c.subscriptions.buffer id).length < capacity
      · rw [Subscriptions.buffer_offer_of_room hsub hreceiver hroom, ← List.append_assoc,
          h.content topic id hmem hreceiver]
        simp [Account.delivered, hroom]
      · rw [Subscriptions.buffer_offer_of_full (Nat.not_lt.mp hroom),
          h.content topic id hmem hreceiver]
        simp [Account.delivered, hroom]
    · have hsub : c.subscriptions.isSubscribed id = false := by
        rw [← Bool.not_eq_true, h.isSubscribed_iff hmem]
        exact fun hget => hatt ((h.attached topic id hmem).mpr ⟨hget, hreceiver⟩)
      rw [Subscriptions.buffer_offer_of_not hsub, h.content topic id hmem hreceiver, Account.add,
        if_neg hatt]
  · intro topic id hle
    obtain ⟨hatt, hoffered, hnone⟩ := h.fresh topic id hle
    refine ⟨hatt, ?_, hnone⟩
    rw [haccount, Account.add, hatt, if_neg Bool.false_ne_true, hoffered]
  · rw [hdropped, h.dropped, h.droppedCount_eq, ← sum_map_add_countP]
    refine congrArg List.sum (List.map_congr_left fun p _ => ?_)
    rw [haccount, Account.dropped_add_offered]

/-- A step after which some channels are no longer attached, and all else is as it was. -/
theorem detach {history' : List Event} (hsettings : c'.settings = c.settings)
    (hsubscribed : subscribedTo history' = subscribedTo history)
    (htaken : ∀ id, taken id history' = taken id history)
    (hoffered : ∀ topic id, (account capacity topic id history').offered =
      (account capacity topic id history).offered)
    (hlength : c'.subscriptions.channels.length = c.subscriptions.channels.length)
    (hdropped : c'.counters.dropped = c.counters.dropped)
    (hreceiver : ∀ id, c'.subscriptions.hasReceiver id = true →
      c.subscriptions.hasReceiver id = true ∧
        c'.subscriptions.buffer id = c.subscriptions.buffer id)
    (hget : ∀ topic id, c'.subscriptions.topics.get? topic = some id →
      c.subscriptions.topics.get? topic = some id)
    (hfresh : ∀ topic id, (account capacity topic id history').attached = true →
      (account capacity topic id history).attached = true)
    (hattached : ∀ topic id, (topic, id) ∈ subscribedTo history →
      ((account capacity topic id history').attached = true ↔
        c'.subscriptions.topics.get? topic = some id ∧ c'.subscriptions.hasReceiver id = true)) :
    Accounted capacity c' history' := by
  have hdelivered : ∀ topic id, (account capacity topic id history').delivered capacity =
      (account capacity topic id history).delivered capacity :=
    fun topic id => by rw [Account.delivered, Account.delivered, hoffered]
  refine ⟨hsettings ▸ h.capacity_eq, by rw [hsubscribed, hlength, h.ids], ?_, ?_, ?_, ?_, ?_⟩
  · exact fun topic id hid => hsubscribed ▸ h.topics topic id (hget topic id hid)
  · exact fun topic id hmem => hattached topic id (hsubscribed ▸ hmem)
  · intro topic id hmem hid
    obtain ⟨hbefore, hbuffer⟩ := hreceiver id hid
    rw [htaken, hbuffer, hdelivered, h.content topic id (hsubscribed ▸ hmem) hbefore]
  · intro topic id hle
    obtain ⟨hatt, hnone, htakenNone⟩ := h.fresh topic id (hlength ▸ hle)
    refine ⟨?_, (hoffered topic id).trans hnone, (htaken id).trans htakenNone⟩
    rw [← Bool.not_eq_true]
    exact fun hnow => Bool.false_ne_true (hatt.symm.trans (hfresh topic id hnow))
  · rw [hdropped, h.dropped, hsubscribed]
    refine congrArg List.sum (List.map_congr_left fun p _ => ?_)
    rw [Account.dropped, Account.dropped, hoffered]

theorem forget {topics : List String} (hsettings : c'.settings = c.settings)
    (hsubs : c'.subscriptions = c.subscriptions.forgetAll topics)
    (hdropped : c'.counters.dropped = c.counters.dropped) :
    Accounted capacity c' (history ++ [.forgot topics]) := by
  have haccount : ∀ topic id, account capacity topic id (history ++ [.forgot topics]) =
      account capacity topic id history := fun topic id => account_snoc_none rfl
  have hchannels : c'.subscriptions.channels = c.subscriptions.channels := by
    rw [hsubs, Subscriptions.channels_forgetAll]
  have hsame : ∀ id, c'.subscriptions.hasReceiver id = c.subscriptions.hasReceiver id :=
    fun id => by rw [Subscriptions.hasReceiver, Subscriptions.hasReceiver, hchannels]
  refine h.detach hsettings ((subscribedTo_append _).trans (List.append_nil _))
    (fun id => (taken_append _).trans (List.append_nil _)) (fun topic id => by rw [haccount])
    (by rw [hchannels]) hdropped (fun id hid => ⟨hsame id ▸ hid, ?_⟩) (fun topic id hid => ?_)
    (fun topic id hid => haccount topic id ▸ hid) fun topic id hmem => ?_
  · rw [Subscriptions.buffer, Subscriptions.buffer, hchannels]
  · exact Subscriptions.get?_of_forgetAll (hsubs ▸ hid)
  · rw [haccount, h.attached topic id hmem, hsame]
    refine and_congr_left fun hreceiver => ?_
    rw [hsubs, Subscriptions.get?_forgetAll hreceiver]

theorem clear (hsettings : c'.settings = c.settings)
    (hsubs : c'.subscriptions = c.subscriptions.clear)
    (hdropped : c'.counters.dropped = c.counters.dropped) :
    Accounted capacity c' (history ++ [.cleared]) := by
  have haccount : ∀ topic id, account capacity topic id (history ++ [.cleared]) =
      (account capacity topic id history).add capacity topic id .cleared :=
    fun topic id => account_snoc_some rfl
  refine h.detach hsettings ((subscribedTo_append _).trans (List.append_nil _))
    (fun id => (taken_append _).trans (List.append_nil _)) (fun topic id => by rw [haccount]; rfl)
    (by rw [hsubs]; rfl) hdropped
    (fun id hid => ⟨by rw [hsubs] at hid; exact hid, by rw [hsubs]; rfl⟩)
    (fun topic id hid => ?_) (fun topic id hid => ?_) fun topic id hmem => ?_
  · rw [hsubs] at hid; cases hid
  · rw [haccount] at hid; cases hid
  · rw [haccount, hsubs]
    constructor
    · intro hatt; cases hatt
    · rintro ⟨hget, -⟩; cases hget

theorem unsubscribe {t : String} (hsettings : c'.settings = c.settings)
    (hsubs : c'.subscriptions = c.subscriptions.unsubscribe t)
    (hdropped : c'.counters.dropped = c.counters.dropped) :
    Accounted capacity c' (history ++ [.unsubscribed t]) := by
  have haccount : ∀ topic id, account capacity topic id (history ++ [.unsubscribed t]) =
      (account capacity topic id history).add capacity topic id (.unsubscribed t) :=
    fun topic id => account_snoc_some rfl
  have hattached : ∀ topic id,
      (account capacity topic id (history ++ [.unsubscribed t])).attached = true ↔
        topic ≠ t ∧ (account capacity topic id history).attached = true := by
    intro topic id
    rw [haccount, Account.add]
    by_cases ht : t = topic
    · simp [ht]
    · simp [ht, Ne.symm ht]
  have hget : ∀ topic id, c'.subscriptions.topics.get? topic = some id ↔
      topic ≠ t ∧ c.subscriptions.topics.get? topic = some id := by
    intro topic id
    rw [hsubs, Subscriptions.unsubscribe, KeyMap.get?_erase]
    by_cases ht : topic = t <;> simp [ht]
  refine h.detach hsettings ((subscribedTo_append _).trans (List.append_nil _))
    (fun id => (taken_append _).trans (List.append_nil _))
    (fun topic id => by rw [haccount, Account.offered_add (by simp)]) (by rw [hsubs]; rfl) hdropped
    (fun id hid => ⟨by rw [hsubs] at hid; exact hid, by rw [hsubs]; rfl⟩)
    (fun topic id hid => ((hget topic id).mp hid).2)
    (fun topic id hid => ((hattached topic id).mp hid).2) fun topic id hmem => ?_
  have hsame : c'.subscriptions.hasReceiver id = c.subscriptions.hasReceiver id := by
    rw [hsubs]; rfl
  rw [hattached, hget, h.attached topic id hmem, hsame, and_assoc]

theorem dropReceiver {i : Nat} (hsettings : c'.settings = c.settings)
    (hsubs : c'.subscriptions = c.subscriptions.dropReceiver i)
    (hdropped : c'.counters.dropped = c.counters.dropped) :
    Accounted capacity c' (history ++ [.receiverDropped i]) := by
  have hoffered : ∀ topic id,
      (account capacity topic id (history ++ [.receiverDropped i])).offered =
        (account capacity topic id history).offered := by
    intro topic id
    by_cases hi : i = id
    · rw [account_snoc_some (m := .receiverDropped) (by rw [Event.mark?, if_pos hi])]
      rfl
    · rw [account_snoc_none (by rw [Event.mark?, if_neg hi])]
  have hattached : ∀ topic id,
      (account capacity topic id (history ++ [.receiverDropped i])).attached = true ↔
        (account capacity topic id history).attached = true ∧ id ≠ i := by
    intro topic id
    by_cases hi : i = id
    · rw [account_snoc_some (m := .receiverDropped) (by rw [Event.mark?, if_pos hi])]
      simp [Account.add, hi]
    · rw [account_snoc_none (by rw [Event.mark?, if_neg hi])]
      simp [Ne.symm hi]
  have hreceiver : ∀ id, c'.subscriptions.hasReceiver id = true ↔
      c.subscriptions.hasReceiver id = true ∧ id ≠ i := by
    intro id
    rw [hsubs, Subscriptions.hasReceiver_dropReceiver]
    simp
  refine h.detach hsettings ((subscribedTo_append _).trans (List.append_nil _))
    (fun id => (taken_append _).trans (List.append_nil _)) hoffered
    (by rw [hsubs]; exact List.length_modify ..) hdropped (fun id hid => ?_)
    (fun topic id hid => by rw [hsubs] at hid; exact hid)
    (fun topic id hid => ((hattached topic id).mp hid).1) fun topic id hmem => ?_
  · obtain ⟨hbefore, hne⟩ := (hreceiver id).mp hid
    exact ⟨hbefore, by rw [hsubs, Subscriptions.buffer_dropReceiver hne]⟩
  · have hsame : c'.subscriptions.topics = c.subscriptions.topics := by rw [hsubs]; rfl
    rw [hattached, hreceiver, h.attached topic id hmem, hsame, and_assoc]

/-- The message that a receiver takes goes from the head of the buffer to the end of what was
taken. -/
theorem receive {i : Nat} {v : Variant} {rest : Subscriptions}
    (hreceive : c.subscriptions.receive? i = some (v, rest)) (hsettings : c'.settings = c.settings)
    (hsubs : c'.subscriptions = rest) (hdropped : c'.counters.dropped = c.counters.dropped) :
    Accounted capacity c' (history ++ [.received i v]) := by
  subst hsubs
  obtain ⟨hreceiver, hhead, htopics, hsame, hothers, hlength⟩ :=
    Subscriptions.receive?_spec hreceive
  have hsubscribed : subscribedTo (history ++ [.received i v]) = subscribedTo history :=
    (subscribedTo_append _).trans (List.append_nil _)
  have htaken : ∀ id, taken id (history ++ [.received i v]) =
      taken id history ++ if i = id then [v] else [] := by
    intro id
    rw [taken_append]
    by_cases hi : i = id <;> simp [taken, hi]
  have hoffered : ∀ topic id, (account capacity topic id (history ++ [.received i v])).offered =
      (account capacity topic id history).offered ∧
      (account capacity topic id (history ++ [.received i v])).attached =
        (account capacity topic id history).attached := by
    intro topic id
    by_cases hi : i = id
    · rw [account_snoc_some (m := .taken) (by rw [Event.mark?, if_pos hi])]
      exact ⟨rfl, rfl⟩
    · rw [account_snoc_none (by rw [Event.mark?, if_neg hi])]
      exact ⟨rfl, rfl⟩
  have hdelivered : ∀ topic id, (account capacity topic id (history ++ [.received i v])).delivered
      capacity = (account capacity topic id history).delivered capacity :=
    fun topic id => by rw [Account.delivered, Account.delivered, (hoffered topic id).1]
  refine ⟨hsettings ▸ h.capacity_eq, by rw [hsubscribed, hlength, h.ids], ?_, ?_, ?_, ?_, ?_⟩
  · rw [htopics, hsubscribed]; exact h.topics
  · intro topic id hmem
    rw [(hoffered topic id).2, htopics, hsame]
    exact h.attached topic id (hsubscribed ▸ hmem)
  · intro topic id hmem hid
    rw [hdelivered, ← h.content topic id (hsubscribed ▸ hmem) (hsame id ▸ hid), htaken]
    by_cases hi : i = id
    · subst hi
      rw [if_pos rfl, hhead, List.append_assoc, List.singleton_append]
    · rw [if_neg hi, List.append_nil, hothers id (Ne.symm hi)]
  · intro topic id hle
    rw [hlength] at hle
    obtain ⟨hatt, hnone, htakenNone⟩ := h.fresh topic id hle
    have hi : i ≠ id := by
      have := Subscriptions.lt_length_of_hasReceiver hreceiver
      omega
    refine ⟨(hoffered topic id).2.trans hatt, (hoffered topic id).1.trans hnone, ?_⟩
    rw [htaken, htakenNone, if_neg hi]
    rfl
  · rw [hdropped, h.dropped, hsubscribed]
    refine congrArg List.sum (List.map_congr_left fun p _ => ?_)
    rw [Account.dropped, Account.dropped, (hoffered p.1 p.2).1]

/-- A new channel starts with an empty account, and takes the topic from any channel that has it. -/
theorem subscribe {t : String} (hsettings : c'.settings = c.settings)
    (hsubs : c'.subscriptions = (c.subscriptions.subscribe t).1)
    (hdropped : c'.counters.dropped = c.counters.dropped) :
    Accounted capacity c' (history ++ [.subscribed t c.subscriptions.channels.length]) := by
  have hlength : (c.subscriptions.subscribe t).1.channels.length =
      c.subscriptions.channels.length + 1 := by simp [Subscriptions.subscribe]
  have hsubscribed : subscribedTo (history ++ [.subscribed t c.subscriptions.channels.length]) =
      subscribedTo history ++ [(t, c.subscriptions.channels.length)] := subscribedTo_append _
  have htaken : ∀ id, taken id (history ++ [.subscribed t c.subscriptions.channels.length]) =
      taken id history := fun id => (taken_append _).trans (List.append_nil _)
  have haccount : ∀ topic id,
      account capacity topic id (history ++ [.subscribed t c.subscriptions.channels.length]) =
        (account capacity topic id history).add capacity topic id
          (.subscribed t c.subscriptions.channels.length) :=
    fun topic id => account_snoc_some rfl
  have hoffered : ∀ topic id, (account capacity topic id
      (history ++ [.subscribed t c.subscriptions.channels.length])).offered =
        (account capacity topic id history).offered :=
    fun topic id => by rw [haccount, Account.offered_add (by simp)]
  have hget : ∀ topic, (c.subscriptions.subscribe t).1.topics.get? topic =
      if topic = t then some c.subscriptions.channels.length
      else c.subscriptions.topics.get? topic :=
    fun topic => KeyMap.get?_insert _ _ _ _
  refine ⟨hsettings ▸ h.capacity_eq, ?_, ?_, ?_, ?_, ?_, ?_⟩
  · rw [hsubscribed, hsubs, hlength, List.map_append, h.ids, List.range_succ]
    rfl
  · intro topic id hid
    rw [hsubs, hget] at hid
    rw [hsubscribed]
    split at hid
    · next htopic =>
      cases hid
      exact List.mem_append_right _ (htopic ▸ List.mem_singleton_self _)
    · exact List.mem_append_left _ (h.topics topic id hid)
  · intro topic id hmem
    rw [hsubs, hget, Subscriptions.hasReceiver_subscribe, haccount, Account.add]
    rw [hsubscribed] at hmem
    rcases List.mem_append.mp hmem with hmem | hmem
    · have hlt := h.lt_length hmem
      have hne : id ≠ c.subscriptions.channels.length := Nat.ne_of_lt hlt
      rw [if_neg (Ne.symm hne)]
      by_cases htopic : t = topic
      · simp [htopic, Ne.symm hne]
      · simp [htopic, Ne.symm htopic, hne, h.attached topic id hmem]
    · cases List.mem_singleton.mp hmem
      simp
  · intro topic id hmem hreceiver
    rw [hsubs, Subscriptions.buffer_subscribe, htaken, Account.delivered, hoffered]
    rw [hsubscribed] at hmem
    rcases List.mem_append.mp hmem with hmem | hmem
    · have hlt := h.lt_length hmem
      refine h.content topic id hmem ?_
      rw [hsubs, Subscriptions.hasReceiver_subscribe] at hreceiver
      simpa [Nat.ne_of_lt hlt] using hreceiver
    · cases List.mem_singleton.mp hmem
      obtain ⟨-, hnone, htakenNone⟩ := h.fresh t _ (Nat.le_refl _)
      rw [hnone, htakenNone, Subscriptions.buffer, List.getElem?_eq_none (Nat.le_refl _)]
      rfl
  · intro topic id hle
    rw [hsubs, hlength] at hle
    obtain ⟨hatt, hnone, htakenNone⟩ := h.fresh topic id (Nat.le_of_succ_le hle)
    refine ⟨?_, (hoffered topic id).trans hnone, (htaken id).trans htakenNone⟩
    have hne : c.subscriptions.channels.length ≠ id := Nat.ne_of_lt hle
    rw [haccount, Account.add, if_neg hne]
    split
    · rfl
    · exact hatt
  · obtain ⟨-, hnone, -⟩ := h.fresh t _ (Nat.le_refl _)
    have hnew : (account capacity t c.subscriptions.channels.length
        (history ++ [.subscribed t c.subscriptions.channels.length])).dropped capacity = 0 := by
      rw [Account.dropped, hoffered, hnone]
      rfl
    rw [hdropped, h.dropped, hsubscribed, List.map_append, List.sum_append, List.map_singleton,
      hnew]
    refine congrArg List.sum (List.map_congr_left fun p _ => ?_)
    rw [Account.dropped, Account.dropped, hoffered]

/-- Every transition keeps the accounts right. -/
theorem step (hsettings : c'.settings = c.settings) (hstep : SubscriptionStep c c' events) :
    Accounted capacity c' (history ++ events) := by
  cases hstep with
  | idle hsubs hdropped hevents => exact h.idle hsettings hsubs hdropped hevents
  | offer v hsubs hdropped =>
    rw [h.capacity_eq] at hsubs hdropped
    exact h.offer hsettings hsubs hdropped
  | forget topics hsubs hdropped => exact h.forget hsettings hsubs hdropped
  | clear hsubs hdropped => exact h.clear hsettings hsubs hdropped
  | subscribe topic hsubs hdropped => exact h.subscribe hsettings hsubs hdropped
  | unsubscribe topic hsubs hdropped => exact h.unsubscribe hsettings hsubs hdropped
  | receive hreceive hsubs hdropped => exact h.receive hreceive hsettings hsubs hdropped
  | dropReceiver id hsubs hdropped => exact h.dropReceiver hsettings hsubs hdropped

end Accounted

end Connection

end Uplink.Stream
