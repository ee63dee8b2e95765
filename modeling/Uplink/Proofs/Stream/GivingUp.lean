import Uplink.Proofs.Stream.Healing
import Uplink.Proofs.Stream.Lifecycle

/-! Streams that do not dial again. The task that first notices that the socket has failed goes on
at once to end the stream, while all other tasks wait: it marks the stream, cancels it and clears
its subscriptions before anything else happens. So nothing is read, offered or subscribed any more,
and when that task is through the stream is closed. -/

namespace Uplink.Stream

/-- Whether an event tells of dialing again. -/
def Event.isOfRedial : Event → Bool
  | .entered .reconnecting | .dialStarted _ => true
  | _ => false

/-- Whether an event tells that a frame was read, a message offered or a topic subscribed. -/
def Event.isOfDelivery : Event → Bool
  | .read .. | .offered .. | .subscribed .. => true
  | _ => false

/-- How many steps lie before the one that clears the subscriptions. -/
def Ending.left? : Ending → Option Nat
  | .checking => some 3
  | .marking => some 2
  | .cancelling => some 1
  | .clearing => some 0
  | _ => none

namespace Connection

/-- How many steps a background task that has noticed a failure has before the one that clears the
subscriptions. -/
def Standing.left? : Standing → Option Nat
  | .reader (.losing _) | .heartbeat (.failing _) => some 4
  | .reader (.ending e) | .heartbeat (.ending e) => e.left?
  | _ => none

/-- Whether a background task is to end the stream. -/
def Standing.endsStream : Standing → Bool
  | .reader (.losing _) | .heartbeat (.failing _) | .reader (.ending _)
  | .heartbeat (.ending _) => true
  | _ => false

/-- A task learns from a move that the socket has failed: the reader reads a close frame or is told
that it cannot read on, or a ping of the heartbeat fails. -/
inductive NoticesFailure (events : List Event) : Task → Move → Prop where
  | closedByPeer : NoticesFailure events .reader (.step .reader (.frame .close))
  | failed : NoticesFailure events .reader (.step .reader .readFailed)
  | ended : NoticesFailure events .reader (.step .reader .readEnded)
  | ping {socket : Option SocketId} {sig : Signal} : .pingFailed socket ∈ events →
      NoticesFailure events .heartbeat (.step .heartbeat sig)

/-- What holds of a stream that does not dial again. -/
structure NeverRedials (c : Connection) : Prop where
  reconnect : c.settings.reconnect = false
  wake : c.wake = false
  retiring : c.reader.point ≠ .retiring
  replacing : c.reader.point.isReplacing = false
  state : c.state ≠ .reconnecting

/-- A stream that has ended for those who use it: it takes no topics and has none. -/
structure Ended (c : Connection) : Prop where
  ended : c.isLive = false
  cancelled : c.cancelled = true
  topics : c.subscriptions.topics = ∅

/-- A background task is between two waits, a number of steps before it clears the subscriptions. -/
def Winds (c : Connection) (t : Task) (n : Nat) : Prop :=
  ∃ s, c.standing? t = some (s, false) ∧ s.left? = some n

variable {schedule : Schedule} {c c' d : Connection} {t : Task} {m : Move} {n : Nat}
  {sig : Signal} {e : Ending} {next : Option Ending} {s : Standing} {parked : Bool}
  {history past events : List Event} {address : String} {settings : StreamSettings}
  {began now : Instant} {epoch : Int}

/-! ### No dial after the first -/

theorem EndingStep.isOfRedial (h : EndingStep c t e c' next events) :
    ∀ e ∈ events, e.isOfRedial = false := by
  cases h with
  | say =>
    simp only [List.mem_singleton, forall_eq]
    split <;> rfl
  | _ => simp [Event.isOfRedial]

theorem EndingStep.state_ne_reconnecting (h : EndingStep c t e c' next events)
    (hstate : c.state ≠ .reconnecting) : c'.state ≠ .reconnecting := by
  cases h with
  | mark | finish => exact State.noConfusion
  | _ => exact hstate

namespace NeverRedials

variable (h : NeverRedials c)
include h

/-- What leaves the reader where it is, or takes it where it does not dial. -/
theorem same (hsettings : c'.settings = c.settings) (hwake : c'.wake = c.wake)
    (hpoint : c'.reader.point = c.reader.point ∨
      c'.reader.point ≠ .retiring ∧ c'.reader.point.isReplacing = false)
    (hstate : c'.state ≠ .reconnecting) : NeverRedials c' := by
  refine ⟨hsettings ▸ h.reconnect, hwake.trans h.wake, ?_, ?_, hstate⟩
  · exact hpoint.elim (fun hsame => hsame ▸ h.retiring) And.left
  · exact hpoint.elim (fun hsame => hsame ▸ h.replacing) And.right

theorem of_readerStep (hsettings : c'.settings = c.settings) (hstep : ReaderStep c c' events) :
    NeverRedials c' ∧ ∀ e ∈ events, e.isOfRedial = false := by
  have hreplacing := h.replacing
  cases hstep with
  | wake _ _ hwake => rw [h.wake] at hwake; cases hwake
  | lose _ hreconnect => rw [h.reconnect] at hreconnect; cases hreconnect
  | pass hp | retire hp => exact absurd hp h.retiring
  | discard hp | stopResting hp | rest hp | stopRedialing hp | redial hp | abandon hp | dialed hp
  | dialFailed hp | place hp | reopen hp =>
    rw [hp] at hreplacing
    cases hreplacing
  | read f =>
    cases f <;>
      exact ⟨h.same hsettings rfl (.inr ⟨ReaderPoint.noConfusion, rfl⟩) h.state, by
        simp [readFrame, Event.isOfRedial]⟩
  | @offer v =>
    refine ⟨h.same hsettings rfl (.inr ?_) h.state, by simp [Event.isOfRedial]⟩
    rw [point_readerAt]
    cases Subscriptions.gone (c.offerAll v).2 <;> exact ⟨ReaderPoint.noConfusion, rfl⟩
  | pong sig =>
    refine ⟨h.same hsettings rfl (.inr ⟨ReaderPoint.noConfusion, rfl⟩) h.state, ?_⟩
    simp only [List.mem_singleton, forall_eq]
    split <;> rfl
  | @ending e d next events hp hending =>
    refine ⟨h.same hsettings ?_ (.inr ?_) (hending.state_ne_reconnecting h.state),
      hending.isOfRedial⟩
    · obtain ⟨_, _, _, _, _, rfl⟩ := hending.frame
      rfl
    · cases next <;> exact ⟨ReaderPoint.noConfusion, rfl⟩
  | _ =>
    exact ⟨h.same hsettings rfl (.inr ⟨ReaderPoint.noConfusion, rfl⟩) h.state, by
      simp [Event.isOfRedial]⟩

theorem of_heartbeatStep (hsettings : c'.settings = c.settings)
    (hstep : HeartbeatStep c c' events) :
    NeverRedials c' ∧ ∀ e ∈ events, e.isOfRedial = false := by
  cases hstep with
  | wake _ hreconnect => rw [h.reconnect] at hreconnect; cases hreconnect
  | ending _ hending =>
    have hstate := hending.state_ne_reconnecting h.state
    refine ⟨?_, hending.isOfRedial⟩
    obtain ⟨_, _, _, _, _, rfl⟩ := hending.frame
    exact h.same hsettings rfl (.inl rfl) hstate
  | _ => exact ⟨h.same hsettings rfl (.inl rfl) h.state, by simp [Event.isOfRedial]⟩

/-- No move makes such a stream dial again. -/
theorem of_transition (hstep : Transition c m c' events) :
    NeverRedials c' ∧ ∀ e ∈ events, e.isOfRedial = false := by
  have hsettings := hstep.settings_eq
  cases hstep with
  | @suspend t =>
    refine ⟨?_, by simp⟩
    cases t <;> exact h.same hsettings rfl (.inl rfl) h.state
  | reader hstep => exact h.of_readerStep hsettings hstep
  | heartbeat hstep => exact h.of_heartbeatStep hsettings hstep
  | sending hstep =>
    cases hstep <;> exact ⟨h.same hsettings rfl (.inl rfl) h.state, by simp [Event.isOfRedial]⟩
  | closing hstep =>
    cases hstep with
    | @abort t =>
      refine ⟨?_, by simp [Event.isOfRedial]⟩
      cases t <;> exact h.same hsettings rfl (.inl rfl) h.state
    | ending _ hending =>
      have hstate := hending.state_ne_reconnecting h.state
      refine ⟨?_, hending.isOfRedial⟩
      obtain ⟨_, _, _, _, _, rfl⟩ := hending.frame
      exact h.same hsettings rfl (.inl rfl) hstate
    | ended _ hending =>
      have hstate := hending.state_ne_reconnecting h.state
      refine ⟨?_, fun e he => (List.mem_append.mp he).elim (hending.isOfRedial e) ?_⟩
      · obtain ⟨_, _, _, _, _, rfl⟩ := hending.frame
        exact h.same hsettings rfl (.inl rfl) hstate
      · intro he
        cases List.mem_singleton.mp he
        rfl
    | _ => exact ⟨h.same hsettings rfl (.inl rfl) h.state, by simp [Event.isOfRedial]⟩
  | reapReader =>
    refine ⟨h.same hsettings rfl (.inr ⟨ReaderPoint.noConfusion, rfl⟩) h.state, ?_⟩
    unfold abandoned
    split <;> simp [Event.isOfRedial]
  | dropHandle =>
    refine ⟨?_, by simp [Event.isOfRedial]⟩
    obtain ⟨_, _, heq⟩ := abort_frame c.tasks { c with cancelled := true, tasks := [] }
    rw [heq] at hsettings ⊢
    exact h.same hsettings rfl (.inl rfl) h.state
  | _ => exact ⟨h.same hsettings rfl (.inl rfl) h.state, by simp [Event.isOfRedial]⟩

end NeverRedials

theorem neverRedials_opened (hreconnect : settings.reconnect = false) :
    NeverRedials (opened address settings now epoch) :=
  ⟨hreconnect, rfl, ReaderPoint.noConfusion, rfl, State.noConfusion⟩

theorem Reaches.neverRedials (h : Reaches schedule d past c history) (hd : NeverRedials d) :
    NeverRedials c ∧ ∃ after, history = past ++ after ∧ ∀ e ∈ after, e.isOfRedial = false := by
  induction h with
  | refl => exact ⟨hd, [], by simp, by simp⟩
  | @move c₁ c₂ history events m _ _ hnext ih =>
    obtain ⟨hbefore, after, rfl, hafter⟩ := ih
    obtain ⟨hnow, hevents⟩ := hbefore.of_transition (.of_next? hnext)
    exact ⟨hnow, after ++ events, List.append_assoc _ _ _,
      fun e he => (List.mem_append.mp he).elim (hafter e) (hevents e)⟩

/-! ### Ended streams -/

theorem EndingStep.ended (h : EndingStep c t e c' next events) (hended : Ended c) : Ended c' := by
  obtain ⟨hlive, hcancelled, htopics⟩ := hended
  cases h with
  | mark | finish => exact ⟨rfl, hcancelled, htopics⟩
  | cancel => exact ⟨hlive, rfl, htopics⟩
  | clear => exact ⟨hlive, hcancelled, rfl⟩
  | _ => exact ⟨hlive, hcancelled, htopics⟩

/-- A stream that does not dial again and has ended stays so. -/
theorem Ended.of_transition (h : Ended c) (hnever : NeverRedials c)
    (hstep : Transition c m c' events) : Ended c' := by
  obtain ⟨hended, hcancelled, htopics⟩ := h
  cases hstep with
  | @suspend t => cases t <;> exact ⟨hended, hcancelled, htopics⟩
  | reader hstep =>
    cases hstep with
    | read f => cases f <;> exact ⟨hended, hcancelled, htopics⟩
    | lose _ hreconnect => rw [hnever.reconnect] at hreconnect; cases hreconnect
    | reopen hp =>
      have hreplacing := hnever.replacing
      rw [hp] at hreplacing
      cases hreplacing
    | forget =>
      refine ⟨hended, hcancelled, ?_⟩
      exact (congrArg Subscriptions.topics (Subscriptions.forgetAll_of_empty _ htopics)).trans
        htopics
    | ending _ hending =>
      obtain ⟨hended', hcancelled', htopics'⟩ := hending.ended ⟨hended, hcancelled, htopics⟩
      exact ⟨hended', hcancelled', htopics'⟩
    | _ => exact ⟨hended, hcancelled, htopics⟩
  | heartbeat hstep =>
    cases hstep with
    | ending _ hending =>
      obtain ⟨hended', hcancelled', htopics'⟩ := hending.ended ⟨hended, hcancelled, htopics⟩
      exact ⟨hended', hcancelled', htopics'⟩
    | _ => exact ⟨hended, hcancelled, htopics⟩
  | sending hstep => cases hstep <;> exact ⟨hended, hcancelled, htopics⟩
  | closing hstep =>
    cases hstep with
    | cancel => exact ⟨hended, rfl, htopics⟩
    | @abort t => cases t <;> exact ⟨hended, hcancelled, htopics⟩
    | ending _ hending | ended _ hending =>
      obtain ⟨hended', hcancelled', htopics'⟩ := hending.ended ⟨hended, hcancelled, htopics⟩
      exact ⟨hended', hcancelled', htopics'⟩
    | _ => exact ⟨hended, hcancelled, htopics⟩
  | subscribe topic hlive => cases hlive.symm.trans hended
  | unsubscribe topic =>
    exact ⟨hended, hcancelled, (congrArg (KeyMap.erase · topic) htopics).trans rfl⟩
  | receive hreceive =>
    exact ⟨hended, hcancelled, (Subscriptions.receive?_spec hreceive).2.2.1.trans htopics⟩
  | dropHandle =>
    obtain ⟨_, _, heq⟩ := abort_frame c.tasks { c with cancelled := true, tasks := [] }
    rw [heq]
    exact ⟨hended, rfl, htopics⟩
  | _ => exact ⟨hended, hcancelled, htopics⟩

/-! ### What comes after a failure -/

theorem EndingStep.isOfDelivery (h : EndingStep c t e c' next events) :
    ∀ e ∈ events, e.isOfDelivery = false := by
  cases h with
  | say =>
    simp only [List.mem_singleton, forall_eq]
    split <;> rfl
  | _ => simp [Event.isOfDelivery]

theorem ReaderStep.isOfDelivery (h : ReaderStep c c' events)
    (hstill : c.cancelled = true ∨ c.reader.point ≠ .selecting)
    (hoffering : ∀ v, c.reader.point ≠ .offering v) :
    (∀ e ∈ events, e.isOfDelivery = false) ∧ ∀ v, c'.reader.point ≠ .offering v := by
  cases h with
  | read f hp hcancelled =>
    rcases hstill with hstill | hstill
    · cases hcancelled.symm.trans hstill
    · exact absurd hp hstill
  | offer hp => exact absurd hp (hoffering _)
  | pong sig =>
    refine ⟨?_, fun _ => ReaderPoint.noConfusion⟩
    simp only [List.mem_singleton, forall_eq]
    split <;> rfl
  | @ending e d next events hp hending =>
    refine ⟨hending.isOfDelivery, ?_⟩
    cases next <;> exact fun _ => ReaderPoint.noConfusion
  | _ => exact ⟨by simp [Event.isOfDelivery], fun _ => ReaderPoint.noConfusion⟩

/-- Where the reader reads no frame and no topic is taken, no message is offered. -/
theorem Transition.isOfDelivery (h : Transition c m c' events)
    (hstill : (∃ sig, m = .step .reader sig) → c.cancelled = true ∨ c.reader.point ≠ .selecting)
    (hlive : (∃ topic, m = .subscribe topic) → c.isLive = false)
    (hoffering : ∀ v, c.reader.point ≠ .offering v) :
    (∀ e ∈ events, e.isOfDelivery = false) ∧ ∀ v, c'.reader.point ≠ .offering v := by
  cases h with
  | @suspend t => cases t <;> exact ⟨by simp, hoffering⟩
  | reader hstep => exact hstep.isOfDelivery (hstill ⟨_, rfl⟩) hoffering
  | heartbeat hstep =>
    rw [← (reader_of_standing? (hstep.standing? Task.noConfusion)).1] at hoffering
    refine ⟨?_, hoffering⟩
    cases hstep with
    | ending _ hending => exact hending.isOfDelivery
    | _ => simp [Event.isOfDelivery]
  | sending hstep => cases hstep <;> exact ⟨by simp [Event.isOfDelivery], hoffering⟩
  | closing hstep =>
    rw [← (reader_of_standing? (hstep.standing? Task.noConfusion)).1] at hoffering
    refine ⟨?_, hoffering⟩
    cases hstep with
    | ending _ hending => exact hending.isOfDelivery
    | ended _ hending =>
      refine fun e he => (List.mem_append.mp he).elim (hending.isOfDelivery e) fun he => ?_
      cases List.mem_singleton.mp he
      rfl
    | _ => simp [Event.isOfDelivery]
  | reapReader =>
    refine ⟨?_, fun _ => ReaderPoint.noConfusion⟩
    unfold abandoned
    split <;> simp [Event.isOfDelivery]
  | subscribe topic hopen => cases hopen.symm.trans (hlive ⟨topic, rfl⟩)
  | dropHandle =>
    obtain ⟨_, _, heq⟩ := abort_frame c.tasks { c with cancelled := true, tasks := [] }
    rw [heq]
    exact ⟨by simp [Event.isOfDelivery], hoffering⟩
  | _ => exact ⟨by simp [Event.isOfDelivery], hoffering⟩

/-! ### The task that ends the stream -/

theorem Standing.isFinished_of_left? (h : s.left? = some n) : s.isFinished = false := by
  unfold left? at h
  split at h <;> first | rfl | cases h

theorem Standing.mayPark_of_left? (h : s.left? = some n) : s.mayPark = false := by
  have hending : ∀ e : Ending, e.left? = some n → mayRestEnding e = false := by
    intro e he
    cases e <;> first | rfl | cases he
  unfold left? at h
  split at h
  · rfl
  · rfl
  · exact hending _ h
  · exact hending _ h
  · cases h

theorem Standing.endsStream_of_left? (h : s.left? = some n) : s.endsStream = true := by
  unfold left? at h
  split at h <;> first | rfl | cases h

/-- While a task runs, only its steps are admitted. -/
theorem eq_step_of_admits (hrunning : c.isQuiet t = false) (hadmits : c.admits .await m = true) :
    ∃ sig, m = .step t sig := by
  have hsettled : c.isSettled ≠ true := fun hsettled => by
    rw [quiet_of_isSettled hsettled] at hrunning
    cases hrunning
  cases m with
  | step u sig =>
    by_cases hu : u = t
    · exact ⟨sig, hu ▸ rfl⟩
    · rw [quiet_of_admits_step hadmits (Ne.symm hu)] at hrunning
      cases hrunning
  | _ => exact absurd hadmits hsettled

/-- A task may take a step while all others wait. -/
theorem admits_step_of_quiet (hothers : ∀ u, u ≠ t → c.isQuiet u = true) :
    c.admits .await (.step t sig) = true := by
  refine List.all_eq_true.mpr fun u _ => ?_
  by_cases hu : u = t
  · simp [hu]
  · simp [hothers u hu]

/-- Those that a move does not concern wait after it, too. -/
theorem Concerns.quiet (h : Concerns c c' t) {u : Task} (hu : u ≠ t) : c'.isQuiet u = true := by
  have hquiet := h.others u hu
  cases hs : c.standing? u with
  | none => exact isQuiet_of_standing?_eq_none ((h.frame u hu).trans hs)
  | some standing =>
    obtain ⟨s, parked⟩ := standing
    rw [isQuiet_of_standing? hs] at hquiet
    rw [isQuiet_of_standing? ((h.frame u hu).trans hs), hquiet]

/-- A task that ends a stream comes a step nearer to having ended it. -/
theorem EndingStep.ended_or_left? (h : EndingStep c t e c' next events) (he : c.EndsRightly e)
    (hclosed : c.state = .closed → c.subscriptions.topics = ∅ ∧ c.cancelled = true)
    (hleft : e.left? = some n) :
    Ended c' ∨ ∃ k e', n = k + 1 ∧ next = some e' ∧ e'.left? = some k := by
  cases h with
  | alreadyClosed hstate =>
    exact .inl ⟨by rw [isLive, hstate]; rfl, (hclosed hstate).2, (hclosed hstate).1⟩
  | begin | mark | cancel => cases hleft; exact .inr ⟨_, _, rfl, rfl, rfl⟩
  | clear => exact .inl ⟨he.1, he.2, rfl⟩
  | _ => cases hleft

namespace Winds

variable (h : Winds c t n)
include h

theorem not_quiet : c.isQuiet t = false := by
  obtain ⟨s, hs, hleft⟩ := h
  rw [isQuiet_of_standing? hs, Standing.isFinished_of_left? hleft]
  rfl

/-- A step of such a task ends the stream or leaves it one step less. -/
theorem of_transition (hsound : Sound c) (hnever : NeverRedials c)
    (hstep : Transition c (.step t sig) c' events) :
    Ended c' ∨ ∃ k, n = k + 1 ∧ Winds c' t k := by
  obtain ⟨s, hs, hleft⟩ := h
  have hclosed : c.state = .closed → c.subscriptions.topics = ∅ ∧ c.cancelled = true :=
    fun hstate => (hsound.closed hstate).2
  cases hstep with
  | suspend hwaits =>
    have hpark := mayPark_of_waits hwaits hs
    rw [Standing.mayPark_of_left? hleft] at hpark
    cases hpark
  | reader hstep =>
    simp only [standing?, Option.some.injEq, Prod.mk.injEq] at hs
    obtain ⟨rfl, -⟩ := hs
    cases hstep with
    | lose _ hreconnect => rw [hnever.reconnect] at hreconnect; cases hreconnect
    | loseForGood hp =>
      rw [hp] at hleft
      cases hleft
      exact .inr ⟨3, rfl, _, rfl, rfl⟩
    | @ending e d next events hp hending =>
      rw [hp] at hleft
      have he := hsound.ends _ _ _ _ (standing?_reader hp) rfl
      rcases hending.ended_or_left? he hclosed hleft with hended | ⟨k, e', hn, rfl, hleft'⟩
      · exact .inl ⟨hended.ended, hended.cancelled, hended.topics⟩
      · exact .inr ⟨k, hn, _, rfl, hleft'⟩
    | _ => rw [‹c.reader.point = _›] at hleft; cases hleft
  | heartbeat hstep =>
    simp only [standing?, Option.some.injEq, Prod.mk.injEq] at hs
    obtain ⟨rfl, -⟩ := hs
    cases hstep with
    | wake _ hreconnect => rw [hnever.reconnect] at hreconnect; cases hreconnect
    | giveUp hp =>
      rw [hp] at hleft
      cases hleft
      exact .inr ⟨3, rfl, _, rfl, rfl⟩
    | @ending e d next events hp hending =>
      rw [hp] at hleft
      have he := hsound.ends _ _ _ _ (standing?_heartbeat hp) rfl
      rcases hending.ended_or_left? he hclosed hleft with hended | ⟨k, e', hn, rfl, hleft'⟩
      · exact .inl ⟨hended.ended, hended.cancelled, hended.topics⟩
      · exact .inr ⟨k, hn, _, rfl, hleft'⟩
    | _ => rw [‹c.heartbeat.point = _›] at hleft; cases hleft
  | sending | closing =>
    obtain ⟨thread, -, heq⟩ := Option.map_eq_some_iff.mp hs
    obtain ⟨rfl, -⟩ := Prod.ext_iff.mp heq
    cases hleft

/-- Such a task can go on. -/
theorem exists_next? (hnever : NeverRedials c) :
    ∃ c' events, c.next? (.step t .go) = some (c', events) := by
  have hending : ∀ u e, e.left? = some n → ∃ result, c.endingStep u e .go = some result := by
    intro u e hleft
    cases e with
    | checking | marking | cancelling | clearing => exact ⟨_, rfl⟩
    | _ => cases hleft
  obtain ⟨s, hs, hleft⟩ := h
  cases t with
  | reader =>
    simp only [standing?, Option.some.injEq, Prod.mk.injEq] at hs
    obtain ⟨rfl, hparked⟩ := hs
    have hstep : c.next? (.step .reader .go) = c.readerStep .go := by
      simp [next?, step?, isParked, hparked]
    rw [hstep]
    cases hp : c.reader.point with
    | losing cause =>
      refine ⟨c.readerAt (.ending .checking), [.lost c.source cause], ?_⟩
      simp [readerStep, hp, hnever.reconnect]
    | ending e =>
      rw [hp] at hleft
      obtain ⟨result, hresult⟩ := hending .reader e hleft
      exact ⟨_, _, by simp only [readerStep, hp, hresult, Option.map_some]; rfl⟩
    | _ => rw [hp] at hleft; cases hleft
  | heartbeat =>
    simp only [standing?, Option.some.injEq, Prod.mk.injEq] at hs
    obtain ⟨rfl, hparked⟩ := hs
    have hstep : c.next? (.step .heartbeat .go) = c.heartbeatStep .go := by
      simp [next?, step?, isParked, hparked]
    rw [hstep]
    cases hp : c.heartbeat.point with
    | failing due =>
      refine ⟨c.heartbeatAt (.ending .checking), [], ?_⟩
      simp [heartbeatStep, hp, hnever.reconnect]
    | ending e =>
      rw [hp] at hleft
      obtain ⟨result, hresult⟩ := hending .heartbeat e hleft
      exact ⟨_, _, by simp only [heartbeatStep, hp, hresult, Option.map_some]; rfl⟩
    | _ => rw [hp] at hleft; cases hleft
  | send | close =>
    obtain ⟨thread, -, heq⟩ := Option.map_eq_some_iff.mp hs
    obtain ⟨rfl, -⟩ := Prod.ext_iff.mp heq
    cases hleft

end Winds

/-! ### Runs of a stream that does not dial again -/

/-- What holds between any two moves of a run of a stream that does not dial again. -/
structure Steady (c : Connection) : Prop where
  never : NeverRedials c
  sound : Sound c
  turn : InTurn c
  closes : Closes c

theorem Steady.of_next? (h : Steady c) (hadmits : c.admits .await m = true)
    (hnext : c.next? m = some (c', events)) : Steady c' := by
  have hstep := Transition.of_next? hnext
  have hplacing : m = .step .reader .suspend → ∀ s, c.reader.point ≠ .placing s := by
    intro _ s hp
    have hreplacing := h.never.replacing
    rw [hp] at hreplacing
    cases hreplacing
  exact ⟨(h.never.of_transition hstep).1, h.sound.of_transition hadmits hplacing hstep,
    h.turn.step (hstep.concerns hadmits), h.closes.of_transition h.turn hadmits hstep⟩

theorem steady_opened (hreconnect : settings.reconnect = false) :
    Steady (opened address settings now epoch) :=
  ⟨neverRedials_opened hreconnect, sound_opened address settings now epoch,
    inTurn_opened address settings now epoch, closes_opened address settings now epoch⟩

theorem Reaches.steady (h : Reaches .await d past c history) (hd : Steady d) : Steady c := by
  induction h with
  | refl => exact hd
  | move _ hadmits hnext ih => exact ih.of_next? hadmits hnext

/-- Step by step the task comes to have ended the stream. -/
theorem Winds.follow? (h : Winds c t n) (hsteady : Steady c)
    (hothers : ∀ u, u ≠ t → c.isQuiet u = true) (history : List Event) : ∃ k d after,
      c.follow? .await history (List.replicate k (.step t .go)) = some (d, history ++ after) ∧
        Ended d := by
  induction n generalizing c history with
  | zero =>
    obtain ⟨c', events, hnext⟩ := h.exists_next? hsteady.never
    have hadmits : c.admits .await (.step t .go) = true := admits_step_of_quiet hothers
    refine ⟨1, c', events, ?_, ?_⟩
    · simp only [List.replicate_one, Connection.follow?, if_pos hadmits, hnext, Option.bind_some]
    · rcases h.of_transition hsteady.sound hsteady.never (.of_next? hnext) with hended | ⟨k, hk, -⟩
      · exact hended
      · cases hk
  | succ n ih =>
    obtain ⟨c', events, hnext⟩ := h.exists_next? hsteady.never
    have hadmits : c.admits .await (.step t .go) = true := admits_step_of_quiet hothers
    have hstep : ∀ rest, c.follow? .await history (.step t .go :: rest) =
        c'.follow? .await (history ++ events) rest := fun rest => by
      simp only [Connection.follow?, if_pos hadmits, hnext, Option.bind_some]
    rcases h.of_transition hsteady.sound hsteady.never (.of_next? hnext) with hended | ⟨k, hk, hnow⟩
    · exact ⟨1, c', events, hstep [], hended⟩
    · cases hk
      have hothers' : ∀ u, u ≠ t → c'.isQuiet u = true := by
        intro u hu
        exact ((Transition.of_next? hnext).concerns hadmits).quiet hu
      obtain ⟨k, d, after, hfollow, hended⟩ :=
        ih hnow (hsteady.of_next? hadmits hnext) hothers' (history ++ events)
      refine ⟨k + 1, d, events ++ after, ?_, hended⟩
      rw [List.replicate_succ, hstep, hfollow, List.append_assoc]

end Connection

end Uplink.Stream
