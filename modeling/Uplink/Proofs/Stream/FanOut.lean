import Uplink.Proofs.Stream.Delivery

/-! Exact delivery in every run: what was read is offered in order, what was offered is accounted
for, and neither a new socket nor another receiver changes what a channel gets. -/

namespace Uplink.Stream

/-- The points of the reader from the loss of a socket until a new one is in use. -/
def ReaderPoint.isRedialing : ReaderPoint → Bool
  | .losing _ | .retiring | .discarding .. | .resting _ | .redialing | .dialing _ | .placing _
  | .opening _ => true
  | _ => false

namespace Connection

variable {c c' : Connection} {history history' events past : List Event} {capacity : Nat}
  {schedule schedule' : Schedule} {address address' topic : String}
  {settings settings' : StreamSettings} {began now began' now' : Instant} {epoch epoch' : Int}
  {id : ChannelId} {sig : Signal}

/-! ### Runs -/

theorem InOrder.opened : InOrder (opened address settings now epoch)
    ((opened address settings now epoch).opening began) where
  offered := rfl
  sockets := List.Pairwise.nil
  le_source := by intro r hr; cases hr
  source_lt := Nat.zero_lt_one
  incoming := by intro s hs; cases hs
  parked := fun _ => rfl

theorem InOrder.reaches (h : InOrder c past) (hreaches : Reaches schedule c past c' history) :
    InOrder c' history := by
  induction hreaches with
  | refl => exact h
  | move _ _ hnext ih => exact ih.step (.of_transition (.of_next? hnext))

theorem Accounted.opened : Accounted settings.channelCapacity.toNat
    (opened address settings now epoch) ((opened address settings now epoch).opening began) where
  capacity_eq := rfl
  ids := rfl
  topics := by intro topic id hget; cases hget
  attached := by intro topic id hmem; cases hmem
  content := by intro topic id hmem; cases hmem
  fresh := fun _ _ _ => ⟨rfl, rfl, rfl⟩
  dropped := rfl

theorem Accounted.reaches (h : Accounted capacity c past)
    (hreaches : Reaches schedule c past c' history) : Accounted capacity c' history := by
  induction hreaches with
  | refl => exact h
  | move _ _ hnext ih =>
    have htransition := Transition.of_next? hnext
    exact ih.step htransition.settings_eq (.of_transition htransition)

theorem Run.inOrder (h : Run schedule address settings began now epoch c history) :
    InOrder c history := InOrder.opened.reaches h.2

theorem Run.accounted (h : Run schedule address settings began now epoch c history) :
    Accounted settings.channelCapacity.toNat c history := Accounted.opened.reaches h.2

/-! ### New sockets -/

theorem ReaderStep.subscriptions_of_isRedialing (h : ReaderStep c c' events)
    (hpoint : c.reader.point.isRedialing = true) : c'.subscriptions = c.subscriptions := by
  cases h with
  | read _ hat | offer hat | forget hat | ending hat _ => rw [hat] at hpoint; cases hpoint
  | _ => rfl

/-- To dial again neither adds nor removes a topic. -/
theorem subscriptions_of_isRedialing (hpoint : c.reader.point.isRedialing = true)
    (h : c.step? .reader sig = some (c', events)) : c'.subscriptions = c.subscriptions := by
  cases Transition.of_step? h with
  | suspend => rfl
  | reader h => exact h.subscriptions_of_isRedialing hpoint

/-! ### Other receivers -/

/-- A channel whose account is the same gives its receiver the same, and holds the same. -/
theorem Accounted.taken_eq (h : Accounted capacity c history) (h' : Accounted capacity c' history')
    (hmem : (topic, id) ∈ subscribedTo history) (hmem' : (topic, id) ∈ subscribedTo history')
    (hreceiver : c.subscriptions.hasReceiver id = true)
    (hreceiver' : c'.subscriptions.hasReceiver id = true)
    (haccount : account capacity topic id history' = account capacity topic id history) :
    taken id history' = taken id history ∧
      c'.subscriptions.buffer id = c.subscriptions.buffer id := by
  have hcontent := h'.content topic id hmem' hreceiver'
  rw [haccount, ← h.content topic id hmem hreceiver] at hcontent
  have hcount := congrArg Account.taken haccount
  rw [account_taken, account_taken] at hcount
  exact List.append_inj hcontent hcount

theorem mem_subscribedTo_iff_mem_marks {i : ChannelId} :
    (topic, id) ∈ subscribedTo history ↔ .subscribed topic id ∈ marks i history := by
  rw [mem_subscribedTo, marks, List.mem_filterMap]
  constructor
  · exact fun h => ⟨_, h, rfl⟩
  · rintro ⟨e, he, heq⟩
    cases e with
    | subscribed t j => cases heq; exact he
    | received j v | receiverDropped j => simp [Event.mark?] at heq
    | _ => cases heq

/-! ### Exact delivery -/

/-- Delivery is exact in a state after a history. -/
structure DeliversExactly (capacity : Nat) (c : Connection) (history : List Event) : Prop where
  /-- What was read is offered, each message before the next is read. -/
  in_order : messagesOffered history ++ c.pending =
    (messagesRead history).map fun r => .decode r.2.payload
  /-- No socket is read after a newer one. -/
  sockets_in_order : (messagesRead history).Pairwise fun r r' => r.1 ≤ r'.1
  /-- A channel is made for one topic, and only that topic can have it. -/
  topic_unique : ∀ topic t id, .subscribed topic id ∈ history →
    (.subscribed t id ∈ history ∨ c.subscriptions.topics.get? t = some id) → t = topic
  /-- An account is about the messages offered while the topic has the channel. -/
  attached : ∀ topic id, .subscribed topic id ∈ history →
    c.subscriptions.hasReceiver id = true →
    ((account capacity topic id history).attached = true ↔
      c.subscriptions.topics.get? topic = some id)
  /-- They are in the order of all messages. -/
  offered : ∀ topic id,
    ((account capacity topic id history).offered.map Prod.fst).Sublist (messagesOffered history)
  /-- The count that an account keeps of the buffer is right. -/
  held : ∀ topic id, .subscribed topic id ∈ history → c.subscriptions.hasReceiver id = true →
    (account capacity topic id history).held capacity = (c.subscriptions.buffer id).length
  /-- What was taken and what is in the buffer are the messages that met fewer than the capacity. -/
  content : ∀ topic id, .subscribed topic id ∈ history → c.subscriptions.hasReceiver id = true →
    taken id history ++ c.subscriptions.buffer id =
      (account capacity topic id history).delivered capacity
  /-- The others are counted as dropped. -/
  dropped : c.counters.dropped = ((subscribedTo history).map fun p =>
    (account capacity p.1 p.2 history).dropped capacity).sum
  /-- To dial again neither adds nor removes a topic. -/
  redialing : ∀ sig c' events, c.reader.point.isRedialing = true →
    c.step? .reader sig = some (c', events) → c'.subscriptions = c.subscriptions

theorem InOrder.deliversExactly (h : InOrder c history)
    (haccounted : Accounted capacity c history) : DeliversExactly capacity c history where
  in_order := h.offered
  sockets_in_order := h.sockets
  topic_unique := by
    intro topic t id hmem hother
    have hmem := mem_subscribedTo.mpr hmem
    rcases hother with hother | hother
    · exact haccounted.topic_unique hmem (mem_subscribedTo.mpr hother)
    · exact haccounted.topic_unique hmem (haccounted.topics t id hother)
  attached := by
    intro topic id hmem hreceiver
    rw [haccounted.attached topic id (mem_subscribedTo.mpr hmem)]
    exact and_iff_left hreceiver
  offered := fun _ _ => account_offered history
  held := fun _ _ hmem hreceiver => haccounted.held_eq (mem_subscribedTo.mpr hmem) hreceiver
  content := fun topic id hmem hreceiver =>
    haccounted.content topic id (mem_subscribedTo.mpr hmem) hreceiver
  dropped := haccounted.dropped
  redialing := fun _ _ _ hpoint hstep => subscriptions_of_isRedialing hpoint hstep

/-- Every run delivers exactly, and what a channel's receiver takes and what its buffer holds depend
on nothing but what concerns the channel: in another run where that is the same, however others
read, they are the same. -/
theorem run_deliversExactly (h : Run schedule address settings began now epoch c history) :
    DeliversExactly settings.channelCapacity.toNat c history ∧
      ∀ {schedule' address' settings' began' now' epoch' c' history'},
        Run schedule' address' settings' began' now' epoch' c' history' →
        settings'.channelCapacity = settings.channelCapacity →
        ∀ topic id, marks id history' = marks id history → .subscribed topic id ∈ history →
          c.subscriptions.hasReceiver id = true → c'.subscriptions.hasReceiver id = true →
          taken id history' = taken id history ∧
            c'.subscriptions.buffer id = c.subscriptions.buffer id := by
  refine ⟨h.inOrder.deliversExactly h.accounted, ?_⟩
  intro schedule' address' settings' began' now' epoch' c' history' h' hcapacity topic id hmarks
    hmem hreceiver hreceiver'
  have hmem := mem_subscribedTo.mpr hmem
  have hmem' : (topic, id) ∈ subscribedTo history' := by
    rw [mem_subscribedTo_iff_mem_marks (i := id), hmarks]
    exact mem_subscribedTo_iff_mem_marks.mp hmem
  have haccounted' := h'.accounted
  rw [hcapacity] at haccounted'
  refine h.accounted.taken_eq haccounted' hmem hmem' hreceiver hreceiver' ?_
  rw [account, account, hmarks]

/-- A buffer of one message: the first of two messages is delivered, and the second is dropped. -/
theorem deliversExactly_two_messages :
    ∃ c history,
      Run .await "ws://host/" { channelCapacity := 1, pingIntervalMs := 0 } 0 0 0 c history ∧
      DeliversExactly 1 c history ∧ messagesOffered history = [.decode [49], .decode [50]] ∧
      taken 0 history = [.decode [49]] ∧ c.counters.dropped = 1 := by
  have hrun : ∃ c history,
      Run .await "ws://host/" { channelCapacity := 1, pingIntervalMs := 0 } 0 0 0 c history ∧
      messagesOffered history = [.decode [49], .decode [50]] ∧
      taken 0 history = [.decode [49]] ∧ c.counters.dropped = 1 :=
    ⟨_, _, ⟨Nat.le_refl 0, Reaches.of_follow? [.subscribe "topic",
      .step .reader (.frame (.data (.binary [49]))), .step .reader .go, .step .reader .suspend,
      .step .reader (.frame (.data (.binary [50]))), .step .reader .go, .step .reader .suspend,
      .receive 0] .refl rfl⟩, rfl, rfl, rfl⟩
  obtain ⟨c, history, hrun, hresult⟩ := hrun
  exact ⟨c, history, hrun, (run_deliversExactly hrun).1, hresult⟩

end Connection

end Uplink.Stream
