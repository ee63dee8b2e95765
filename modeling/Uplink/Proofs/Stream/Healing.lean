import Uplink.Proofs.Stream.Redial
import Uplink.Proofs.Stream.Subscription

/-! Streams that dial again. Whatever fails, and however often a dial fails, such a stream is ended
only by a call to close or with its handle: until then it is live, its reader goes on, and a topic
is given up only by those who use it. -/

namespace Uplink.Stream

/-- Whether an event tells of the end of a stream. -/
def Event.isOfEnd : Event → Bool
  | .entered .closing | .entered .closed | .cancelled | .cleared => true
  | _ => false

namespace Connection

/-- What holds of a stream that dials again until a call to close or its handle ends it. -/
structure Heals (c : Connection) : Prop where
  ends : EndsByCalls c
  closes : c.closes = []
  cancelled : c.cancelled = false
  live : c.isLive = true
  reading : c.reader.point ≠ .finished
  kept : c.reader.aborted = false

variable {schedule : Schedule} {c c' : Connection} {t : Task} {m : Move} {n : CallId}
  {history events : List Event} {address : String} {settings : StreamSettings}
  {began now : Instant} {epoch : Int}

namespace Heals

variable (h : Heals c)
include h

theorem closePoint?_eq_none : c.closePoint? n = none := by
  rw [closePoint?, h.closes]
  rfl

/-- What leaves the calls to close, the cancellation and the marks as they are. -/
theorem same (hends : EndsByCalls c') (hcloses : c'.closes = c.closes)
    (hcancelled : c'.cancelled = c.cancelled) (hlive : c'.isLive = true)
    (hreading : c'.reader.point ≠ .finished) (hkept : c'.reader.aborted = c.reader.aborted) :
    Heals c' :=
  ⟨hends, hcloses.trans h.closes, hcancelled.trans h.cancelled, hlive, hreading,
    hkept.trans h.kept⟩

theorem of_readerStep (hends : EndsByCalls c') (hstep : ReaderStep c c' events) :
    Heals c' ∧ ∀ e ∈ events, e.isOfEnd = false := by
  have hrunning := h.cancelled
  cases hstep with
  | stop _ hstop | stopResting _ hstop | stopRedialing _ hstop | abandon _ hstop =>
    rw [hrunning] at hstop
    cases hstop
  | loseForGood _ hreconnect => rw [h.ends.reconnect] at hreconnect; cases hreconnect
  | ending hp => exact absurd hp (h.ends.reader _)
  | read f =>
    cases f <;>
      exact ⟨h.same hends rfl rfl h.live ReaderPoint.noConfusion rfl, by
        simp [readFrame, Event.isOfEnd]⟩
  | @offer v =>
    refine ⟨h.same hends rfl rfl h.live ?_ rfl, by simp [Event.isOfEnd]⟩
    rw [point_readerAt]
    cases Subscriptions.gone (c.offerAll v).2 <;> exact ReaderPoint.noConfusion
  | pong sig =>
    refine ⟨h.same hends rfl rfl h.live ReaderPoint.noConfusion rfl, ?_⟩
    simp only [List.mem_singleton, forall_eq]
    split <;> rfl
  | lose | reopen =>
    exact ⟨h.same hends rfl rfl rfl ReaderPoint.noConfusion rfl, by simp [Event.isOfEnd]⟩
  | _ => exact ⟨h.same hends rfl rfl h.live ReaderPoint.noConfusion rfl, by simp [Event.isOfEnd]⟩

theorem of_heartbeatStep (hends : EndsByCalls c') (hstep : HeartbeatStep c c' events) :
    Heals c' ∧ ∀ e ∈ events, e.isOfEnd = false := by
  cases hstep with
  | giveUp _ hreconnect => rw [h.ends.reconnect] at hreconnect; cases hreconnect
  | ending hp => exact absurd hp (h.ends.heartbeat _)
  | _ => exact ⟨h.same hends rfl rfl h.live h.reading rfl, by simp [Event.isOfEnd]⟩

/-- Every move but a call to close and the drop of the handle keeps it so. -/
theorem of_transition (hstep : Transition c m c' events) (hclose : m ≠ .close)
    (hdrop : m ≠ .dropHandle) : Heals c' ∧ ∀ e ∈ events, e.isOfEnd = false := by
  have hends := h.ends.of_transition hstep
  cases hstep with
  | @suspend t =>
    refine ⟨?_, by simp⟩
    cases t with
    | close n =>
      refine h.same hends ?_ rfl h.live h.reading rfl
      simp only [park, h.closes, List.modify_nil]
    | _ => exact h.same hends rfl rfl h.live h.reading rfl
  | reader hstep => exact h.of_readerStep hends hstep
  | heartbeat hstep => exact h.of_heartbeatStep hends hstep
  | sending hstep =>
    cases hstep <;>
      exact ⟨h.same hends rfl rfl h.live h.reading rfl, by simp [Event.isOfEnd]⟩
  | closing hstep => cases hstep <;> cases h.closePoint?_eq_none.symm.trans ‹_›
  | reapReader haborted => rw [h.kept] at haborted; cases haborted
  | close => exact absurd rfl hclose
  | dropHandle => exact absurd rfl hdrop
  | _ => exact ⟨h.same hends rfl rfl h.live h.reading rfl, by simp [Event.isOfEnd]⟩

/-- No move takes a channel away from a topic, unless its receiver is gone or the topic is
unsubscribed or subscribed again. -/
theorem get?_topics {topic : String} {id : ChannelId} (hstep : Transition c m c' events)
    (hid : c.subscriptions.topics.get? topic = some id)
    (hreceiver : c.subscriptions.hasReceiver id = true) (hsubscribe : m ≠ .subscribe topic)
    (hunsubscribe : m ≠ .unsubscribe topic) :
    c'.subscriptions.topics.get? topic = some id := by
  cases hstep with
  | @suspend t => cases t <;> exact hid
  | reader hstep =>
    cases hstep with
    | ending hp => exact absurd hp (h.ends.reader _)
    | read f => cases f <;> exact hid
    | forget => exact (Subscriptions.get?_forgetAll hreceiver).mpr hid
    | _ => exact hid
  | heartbeat hstep =>
    cases hstep with
    | ending hp => exact absurd hp (h.ends.heartbeat _)
    | _ => exact hid
  | sending hstep => cases hstep <;> exact hid
  | closing hstep => cases hstep <;> cases h.closePoint?_eq_none.symm.trans ‹_›
  | subscribe other =>
    have hne : topic ≠ other := fun heq => hsubscribe (heq ▸ rfl)
    exact ((KeyMap.get?_insert _ _ _ _).trans (if_neg hne)).trans hid
  | unsubscribe other =>
    have hne : topic ≠ other := fun heq => hunsubscribe (heq ▸ rfl)
    exact ((KeyMap.get?_erase _ _ _).trans (if_neg hne)).trans hid
  | receive hreceive =>
    exact (congrArg (KeyMap.get? · topic) (Subscriptions.receive?_spec hreceive).2.2.1).trans hid
  | dropHandle =>
    obtain ⟨_, _, heq⟩ := abort_frame c.tasks { c with cancelled := true, tasks := [] }
    rw [heq]
    exact hid
  | _ => exact hid

end Heals

theorem heals_opened (hreconnect : settings.reconnect = true) :
    Heals (opened address settings now epoch) := by
  have hheartbeat : ∀ e, (opened address settings now epoch).heartbeat.point ≠ .ending e := by
    unfold opened
    cases settings.pingInterval? <;> exact fun _ => HeartbeatPoint.noConfusion
  exact ⟨⟨hreconnect, fun _ => ReaderPoint.noConfusion, hheartbeat⟩, rfl, rfl, rfl,
    ReaderPoint.noConfusion, rfl⟩

/-- In every run without a call to close in which the handle is held, a stream that dials again is
as above, and nothing has told of its end. -/
theorem Reaches.heals {d : Connection} {past : List Event} (h : Reaches schedule d past c history)
    (hd : Heals d) (hpast : ∀ e ∈ past, e.isOfEnd = false) (hclose : ∀ n, .closeCalled n ∉ history)
    (hdrop : .handleDropped ∉ history) : Heals c ∧ ∀ e ∈ history, e.isOfEnd = false := by
  induction h with
  | refl => exact ⟨hd, hpast⟩
  | @move c₁ c₂ history events m _ _ hnext ih =>
    obtain ⟨hheals, hhistory⟩ := ih (fun n hmem => hclose n (List.mem_append_left _ hmem))
      fun hmem => hdrop (List.mem_append_left _ hmem)
    have hm : m ≠ .close ∧ m ≠ .dropHandle := by
      constructor <;> rintro rfl <;> cases hnext
      · exact hclose c₁.closes.length (by simp)
      · exact hdrop (by simp)
    obtain ⟨hnow, hevents⟩ := hheals.of_transition (.of_next? hnext) hm.1 hm.2
    exact ⟨hnow, fun e he => (List.mem_append.mp he).elim (hhistory e) (hevents e)⟩

end Connection

end Uplink.Stream
