import Uplink.Proofs.Stream.GivingUp

/-! What a failed socket leads to, as the settings say: to dialing again until somebody ends the
stream, or to the end of the stream. -/

namespace Uplink.Stream

namespace Connection

variable {schedule : Schedule} {c c' d : Connection} {t : Task} {m : Move} {sig : Signal}
  {e : Ending} {s : Standing} {parked : Bool} {history past events : List Event}
  {address : String} {settings : StreamSettings} {began now : Instant} {epoch : Int}

/-! ### Aborted tasks -/

theorem isAborted_abort (h : c.isAborted t = true) (u : Task) : (c.abort u).isAborted t = true := by
  cases t <;> cases u <;> first | rfl | exact h

theorem isAborted_foldl_abort (h : c.isAborted t = true) (tasks : List Task) :
    (tasks.foldl abort c).isAborted t = true := by
  induction tasks generalizing c with
  | nil => exact h
  | cons u rest ih => exact ih (isAborted_abort h u)

/-- A task stays marked to be aborted, and only a call to close and the drop of the handle mark
one. -/
theorem Transition.isAborted (h : Transition c m c' events) (t : Task) :
    (c.isAborted t = true → c'.isAborted t = true) ∧
      (c'.isAborted t = true → c.isAborted t = true ∨ .aborted t ∈ events ∨
        .handleDropped ∈ events) := by
  have hsame : c'.isAborted t = c.isAborted t → (c.isAborted t = true → c'.isAborted t = true) ∧
      (c'.isAborted t = true → c.isAborted t = true ∨ .aborted t ∈ events ∨
        .handleDropped ∈ events) := fun heq => by
    rw [heq]
    exact ⟨id, .inl⟩
  cases h with
  | @suspend u => refine hsame ?_; cases u <;> cases t <;> rfl
  | reader hstep =>
    refine hsame ?_
    cases hstep with
    | read f => cases f <;> cases t <;> rfl
    | ending _ hending => obtain ⟨_, _, _, _, _, rfl⟩ := hending.frame; cases t <;> rfl
    | _ => cases t <;> rfl
  | heartbeat hstep =>
    refine hsame ?_
    cases hstep with
    | ending _ hending => obtain ⟨_, _, _, _, _, rfl⟩ := hending.frame; cases t <;> rfl
    | _ => cases t <;> rfl
  | sending hstep => refine hsame ?_; cases hstep <;> cases t <;> rfl
  | closing hstep =>
    cases hstep with
    | @abort u =>
      refine ⟨fun hwas => (isAborted_abort hwas u :), fun hnow => ?_⟩
      by_cases hu : t = u
      · exact .inr (.inl (by simp [hu]))
      · refine .inl ?_
        cases t <;> cases u <;> first | exact hnow | exact absurd rfl hu
    | ending _ hending | ended _ hending =>
      refine hsame ?_
      obtain ⟨_, _, _, _, _, rfl⟩ := hending.frame
      cases t <;> rfl
    | _ => refine hsame ?_; cases t <;> rfl
  | dropHandle =>
    refine ⟨fun hwas => isAborted_foldl_abort ?_ _, fun _ => .inr (.inr (by simp))⟩
    cases t <;> exact hwas
  | _ => refine hsame ?_; cases t <;> rfl

theorem Reaches.isAborted (h : Reaches schedule d past c history)
    (hd : d.isAborted t = true → .aborted t ∈ past ∨ .handleDropped ∈ past)
    (hnow : c.isAborted t = true) : .aborted t ∈ history ∨ .handleDropped ∈ history := by
  induction h with
  | refl => exact hd hnow
  | move _ _ hnext ih =>
    rcases ((Transition.of_next? hnext).isAborted t).2 hnow with hwas | hnoted | hnoted
    · exact (ih hwas).imp (List.mem_append_left _) (List.mem_append_left _)
    · exact .inl (List.mem_append_right _ hnoted)
    · exact .inr (List.mem_append_right _ hnoted)

/-! ### The run after a failure -/

/-- What holds from the move on in which a background task has noticed that the socket failed. -/
structure Fails (c : Connection) (t : Task) : Prop where
  ends : Ended c ∨ ∃ n, Winds c t n
  offering : ∀ v, c.reader.point ≠ .offering v
  served : c.state = .closed ∨ c.isAborted t = true ∨
    ∃ s parked, c.standing? t = some (s, parked) ∧ s.endsStream = true

/-- A task that is through with ending the stream leaves it closed. -/
theorem EndingStep.closed_of_none (h : EndingStep c t e c' none events) : c'.state = .closed := by
  cases h with
  | alreadyClosed hclosed => exact hclosed
  | finish => rfl

theorem background_of_endsStream (hs : c.standing? t = some (s, parked))
    (hends : s.endsStream = true) : t = .reader ∨ t = .heartbeat := by
  cases t with
  | reader => exact .inl rfl
  | heartbeat => exact .inr rfl
  | send | close =>
    obtain ⟨thread, -, heq⟩ := Option.map_eq_some_iff.mp hs
    obtain ⟨rfl, -⟩ := Prod.ext_iff.mp heq
    cases hends

/-- A task that is to end the stream goes on to do so, or the stream is closed, or the task is
aborted. -/
theorem Transition.served (h : Transition c m c' events) (hnever : NeverRedials c)
    (hs : c.standing? t = some (s, parked)) (hends : s.endsStream = true) :
    c'.state = .closed ∨ c'.isAborted t = true ∨
      ∃ s parked, c'.standing? t = some (s, parked) ∧ s.endsStream = true := by
  have hkept : c'.standing? t = c.standing? t → c'.state = .closed ∨ c'.isAborted t = true ∨
      ∃ s parked, c'.standing? t = some (s, parked) ∧ s.endsStream = true :=
    fun heq => .inr (.inr ⟨s, parked, heq.trans hs, hends⟩)
  have hbackground := background_of_endsStream hs hends
  have hsend : ∀ n, t ≠ .send n := by rcases hbackground with rfl | rfl <;> simp
  have hclose : ∀ n, t ≠ .close n := by rcases hbackground with rfl | rfl <;> simp
  cases h with
  | @suspend u =>
    by_cases hu : t = u
    · subst hu
      refine .inr (.inr ⟨s, true, ?_, hends⟩)
      have hsame : ({ c with turn := if c.awaitsTurn t then c.turn.join t else c.turn }).standing?
          t = c.standing? t := by cases t <;> rfl
      rw [standing?_park_self, hsame, hs]
      rfl
    · refine hkept ((standing?_park hu).trans ?_)
      cases t <;> rfl
  | reader hstep =>
    by_cases ht : t = .reader
    · subst ht
      simp only [standing?, Option.some.injEq, Prod.mk.injEq] at hs
      obtain ⟨rfl, -⟩ := hs
      cases hstep with
      | lose _ hreconnect => rw [hnever.reconnect] at hreconnect; cases hreconnect
      | loseForGood => exact .inr (.inr ⟨_, _, rfl, rfl⟩)
      | @ending e d next events hp hending =>
        cases next with
        | none => exact .inl hending.closed_of_none
        | some e' => exact .inr (.inr ⟨_, _, rfl, rfl⟩)
      | _ => rw [‹c.reader.point = _›] at hends; cases hends
    · exact hkept (hstep.standing? ht)
  | heartbeat hstep =>
    by_cases ht : t = .heartbeat
    · subst ht
      simp only [standing?, Option.some.injEq, Prod.mk.injEq] at hs
      obtain ⟨rfl, -⟩ := hs
      cases hstep with
      | wake _ hreconnect => rw [hnever.reconnect] at hreconnect; cases hreconnect
      | giveUp => exact .inr (.inr ⟨_, _, rfl, rfl⟩)
      | @ending e d next events hp hending =>
        cases next with
        | none => exact .inl hending.closed_of_none
        | some e' => exact .inr (.inr ⟨_, _, rfl, rfl⟩)
      | _ => rw [‹c.heartbeat.point = _›] at hends; cases hends
    · exact hkept (hstep.standing? ht)
  | sending hstep => exact hkept (hstep.standing? (hsend _))
  | closing hstep => exact hkept (hstep.standing? (hclose _))
  | reapReader haborted =>
    by_cases ht : t = .reader
    · subst ht
      exact .inr (.inl haborted)
    · refine hkept ?_
      cases t <;> first | rfl | exact absurd rfl ht
  | reapHeartbeat haborted =>
    by_cases ht : t = .heartbeat
    · subst ht
      exact .inr (.inl haborted)
    · refine hkept ?_
      cases t <;> first | rfl | exact absurd rfl ht
  | send => exact hkept (standing?_start_send (hsend _))
  | close => exact hkept (standing?_start_close (hclose _))
  | dropHandle =>
    refine hkept ?_
    obtain ⟨_, _, heq⟩ := abort_frame c.tasks { c with cancelled := true, tasks := [] }
    rw [heq]
    cases t <;> rfl
  | _ => refine hkept ?_; cases t <;> rfl

/-- Every move after a failure leaves it so, and tells of no delivery. -/
theorem Fails.of_next? (h : Fails c t) (hsteady : Steady c) (hadmits : c.admits .await m = true)
    (hnext : c.next? m = some (c', events)) :
    Fails c' t ∧ ∀ e ∈ events, e.isOfDelivery = false := by
  have hstep := Transition.of_next? hnext
  have hserved : c'.state = .closed ∨ c'.isAborted t = true ∨
      ∃ s parked, c'.standing? t = some (s, parked) ∧ s.endsStream = true := by
    rcases h.served with hclosed | haborted | ⟨s, parked, hs, hends⟩
    · exact .inl (hsteady.closes.closed_of_transition hstep hclosed)
    · exact .inr (.inl ((hstep.isAborted t).1 haborted))
    · exact hstep.served hsteady.never hs hends
  rcases h.ends with hended | ⟨n, hwinds⟩
  · obtain ⟨hevents, hoffering⟩ := hstep.isOfDelivery (fun _ => .inl hended.cancelled)
      (fun _ => hended.ended) h.offering
    exact ⟨⟨.inl (hended.of_transition hsteady.never hstep), hoffering, hserved⟩, hevents⟩
  · -- The task runs, so the move is one of its steps.
    obtain ⟨sig, rfl⟩ := eq_step_of_admits hwinds.not_quiet hadmits
    have hnot : (∃ sig', Move.step t sig = .step .reader sig') →
        c.cancelled = true ∨ c.reader.point ≠ .selecting := by
      rintro ⟨sig', heq⟩
      cases heq
      obtain ⟨s, hs, hleft⟩ := hwinds
      refine .inr fun hp => ?_
      rw [standing?_reader hp] at hs
      obtain ⟨rfl, -⟩ := Prod.ext_iff.mp (Option.some.inj hs)
      cases hleft
    obtain ⟨hevents, hoffering⟩ := hstep.isOfDelivery hnot (fun ⟨_, heq⟩ => by cases heq) h.offering
    refine ⟨⟨?_, hoffering, hserved⟩, hevents⟩
    exact (hwinds.of_transition hsteady.sound hsteady.never hstep).imp_right
      fun ⟨k, _, hnow⟩ => ⟨k, hnow⟩

theorem Reaches.fails (h : Reaches .await d past c history) (hsteady : Steady d) (hd : Fails d t) :
    Fails c t ∧ ∃ after, history = past ++ after ∧ ∀ e ∈ after, e.isOfDelivery = false := by
  induction h with
  | refl => exact ⟨hd, [], by simp, by simp⟩
  | @move c₁ c₂ history events m hbefore hadmits hnext ih =>
    obtain ⟨hfails, after, rfl, hafter⟩ := ih
    obtain ⟨hnow, hevents⟩ := hfails.of_next? (hbefore.steady hsteady) hadmits hnext
    exact ⟨hnow, after ++ events, List.append_assoc _ _ _,
      fun e he => (List.mem_append.mp he).elim (hafter e) (hevents e)⟩

/-- The reader is told that its socket has failed only where it reads. -/
theorem losing_of_next? (hnext : c.next? (.step .reader sig) = some (c', events))
    (hsig : sig = .frame .close ∨ sig = .readFailed ∨ sig = .readEnded) :
    ∃ cause, c'.standing? .reader = some (.reader (.losing cause), false) := by
  have hsuspend : sig ≠ .suspend := by rcases hsig with rfl | rfl | rfl <;> exact Signal.noConfusion
  have h : c.readerStep sig = some (c', events) := readerStep_of_step? hnext hsuspend
  have hnever : ∀ since, c.writeEnds since sig = false := by
    intro since
    rcases hsig with rfl | rfl | rfl <;> rfl
  cases hp : c.reader.point with
  | selecting =>
    rcases hsig with rfl | rfl | rfl <;> simp only [readerStep, hp] at h <;> split at h <;>
      cases h <;> exact ⟨_, rfl⟩
  | ponging | discarding =>
    rcases hsig with rfl | rfl | rfl <;>
      simp only [readerStep, hp, hnever, Bool.false_eq_true, if_false] at h <;> cases h
  | ending e =>
    have hnone : c.endingStep .reader e sig = none := by
      rcases hsig with rfl | rfl | rfl <;> cases e <;> simp [endingStep, hnever]
    rcases hsig with rfl | rfl | rfl <;> simp only [readerStep, hp, hnone] at h <;> cases h
  | _ => rcases hsig with rfl | rfl | rfl <;> simp only [readerStep, hp] at h <;> cases h

theorem HeartbeatStep.failing_of_pingFailed {socket : Option SocketId}
    (h : HeartbeatStep c c' events) (hmem : .pingFailed socket ∈ events) :
    ∃ due, c'.standing? .heartbeat = some (.heartbeat (.failing due), false) := by
  cases h with
  | miss | pingFailed => exact ⟨_, rfl⟩
  | ending _ hending =>
    cases hending with
    | say => simp only [List.mem_singleton] at hmem; split at hmem <;> cases hmem
    | _ => simp at hmem
  | _ => simp at hmem

/-- Once a task has noticed a failure it runs, and goes on to end the stream. -/
theorem NoticesFailure.standing? (h : NoticesFailure events t m)
    (hnext : c.next? m = some (c', events)) :
    ∃ s, c'.standing? t = some (s, false) ∧ s.left? = some 4 := by
  cases h with
  | closedByPeer | failed | ended =>
    obtain ⟨cause, hs⟩ := losing_of_next? hnext (by simp)
    exact ⟨_, hs, rfl⟩
  | ping hmem =>
    cases Transition.of_next? hnext with
    | suspend => cases hmem
    | heartbeat hstep =>
      obtain ⟨due, hs⟩ := hstep.failing_of_pingFailed hmem
      exact ⟨_, hs, rfl⟩

theorem NoticesFailure.fails (h : NoticesFailure events t m) (hsteady : Steady c)
    (hadmits : c.admits .await m = true) (hnext : c.next? m = some (c', events)) : Fails c' t := by
  obtain ⟨s, hs, hleft⟩ := h.standing? hnext
  refine ⟨.inr ⟨4, s, hs, hleft⟩, fun v hp => ?_,
    .inr (.inr ⟨s, false, hs, Standing.endsStream_of_left? hleft⟩)⟩
  have hreader := standing?_reader hp
  by_cases ht : t = .reader
  · subst ht
    rw [hs] at hreader
    obtain ⟨rfl, -⟩ := Prod.ext_iff.mp (Option.some.inj hreader)
    cases hleft
  · have hmove := (Transition.of_next? hnext).concerns hadmits
    have ht' : c.concerned m = t := by cases h <;> rfl
    rw [ht'] at hmove
    have hpark := (hsteady.turn.step hmove).mayPark_of_quiet (hmove.quiet (Ne.symm ht)) hreader rfl
    cases hpark

/-! ### What the setting decides -/

/-- A stream that nothing has ended: it is live, its reader goes on, nothing has told of its end,
and the next move takes a channel from a topic only if its receiver is gone, or the topic is
unsubscribed or subscribed again. -/
structure Unending (c : Connection) (history : List Event) : Prop where
  live : c.isLive = true
  cancelled : c.cancelled = false
  reading : c.hasFinished .reader = false ∧ c.reader.aborted = false
  not_ended : ∀ e ∈ history, e.isOfEnd = false
  topics : ∀ m c' events topic id, c.next? m = some (c', events) →
    c.subscriptions.topics.get? topic = some id → c.subscriptions.hasReceiver id = true →
    m ≠ .subscribe topic → m ≠ .unsubscribe topic →
    c'.subscriptions.topics.get? topic = some id

/-- From the state and the history in which a task has just noticed a failure, it ends the stream at
once. -/
structure EndsAtOnce (t : Task) (c : Connection) (history : List Event) : Prop where
  /-- It needs to wait for nothing before the stream has ended. -/
  goes_on : ∃ k d after,
    c.follow? .await history (List.replicate k (.step t .go)) = some (d, history ++ after) ∧ Ended d
  /-- Nothing else happens before the stream has ended. -/
  alone : ∀ d later, Reaches .await c history d later →
    Ended d ∨ ∀ m, d.admits .await m = true → ∃ sig, m = .step t sig
  undelivered : ∀ d later, Reaches .await c history d later →
    ∃ after, later = history ++ after ∧ ∀ e ∈ after, e.isOfDelivery = false
  closed : ∀ d later, Reaches .await c history d later → d.hasFinished t = true →
    .aborted t ∉ later → .handleDropped ∉ later → d.state = .closed

theorem hasFinished_of_endsStream (hs : c.standing? t = some (s, parked))
    (hends : s.endsStream = true) : c.hasFinished t = false := by
  rcases background_of_endsStream hs hends with rfl | rfl
  all_goals
    simp only [standing?, Option.some.injEq, Prod.mk.injEq] at hs
    obtain ⟨rfl, -⟩ := hs
    simp only [hasFinished]
    split
    · next hp => rw [hp] at hends; cases hends
    · rfl

theorem Heals.unending (h : Heals c) (hhistory : ∀ e ∈ history, e.isOfEnd = false) :
    Unending c history where
  live := h.live
  cancelled := h.cancelled
  reading := by
    refine ⟨?_, h.kept⟩
    rw [← Bool.not_eq_true]
    intro hfinished
    simp only [hasFinished] at hfinished
    split at hfinished
    · exact h.reading ‹_›
    · cases hfinished
  not_ended := hhistory
  topics := fun _ _ _ _ _ hnext hid hreceiver => h.get?_topics (.of_next? hnext) hid hreceiver

theorem NoticesFailure.endsAtOnce (h : NoticesFailure events t m) (hsteady : Steady c)
    (hadmits : c.admits .await m = true) (hnext : c.next? m = some (c', events))
    (haborted : c.isAborted t = true → .aborted t ∈ history ∨ .handleDropped ∈ history) :
    EndsAtOnce t c' (history ++ events) := by
  have hfails := h.fails hsteady hadmits hnext
  have hsteady' := hsteady.of_next? hadmits hnext
  have hmarked : c'.isAborted t = true →
      .aborted t ∈ history ++ events ∨ .handleDropped ∈ history ++ events := fun hnow => by
    rcases ((Transition.of_next? hnext).isAborted t).2 hnow with hwas | hnoted | hnoted
    · exact (haborted hwas).imp (List.mem_append_left _) (List.mem_append_left _)
    · exact .inl (List.mem_append_right _ hnoted)
    · exact .inr (List.mem_append_right _ hnoted)
  refine ⟨?_, fun d later hreaches => ?_, fun d later hreaches => ?_,
    fun d later hreaches hfinished hnot hheld => ?_⟩
  · obtain ⟨s, hs, hleft⟩ := h.standing? hnext
    have hmove := (Transition.of_next? hnext).concerns hadmits
    have ht : c.concerned m = t := by cases h <;> rfl
    rw [ht] at hmove
    exact Winds.follow? ⟨s, hs, hleft⟩ hsteady' (fun _ => hmove.quiet) _
  · refine (hreaches.fails hsteady' hfails).1.ends.imp_right ?_
    rintro ⟨n, hwinds⟩ m hm
    exact eq_step_of_admits hwinds.not_quiet hm
  · exact (hreaches.fails hsteady' hfails).2
  · rcases (hreaches.fails hsteady' hfails).1.served with hclosed | hnow | ⟨s, parked, hs, hends⟩
    · exact hclosed
    · rcases hreaches.isAborted hmarked hnow with hnoted | hnoted
      · exact absurd hnoted hnot
      · exact absurd hnoted hheld
    · rw [hasFinished_of_endsStream hs hends] at hfinished
      cases hfinished

/-- The settings alone decide what failures lead to. If they say to dial again, then in every run
without a call to close in which the handle is held nothing ends the stream, whatever fails. If not,
the stream never dials again, and the task that notices a failure ends the stream at once: nothing
is delivered any more, the stream stays ended, and it is closed once that task is through. -/
theorem reconnect_decides (address : String) (settings : StreamSettings) (began now : Instant)
    (epoch : Int) :
    (settings.reconnect = true → ∀ schedule c history,
      Run schedule address settings began now epoch c history →
      (∀ n, .closeCalled n ∉ history) → .handleDropped ∉ history → Unending c history) ∧
    (settings.reconnect = false → ∀ schedule c history,
      Run schedule address settings began now epoch c history →
      c.state ≠ .reconnecting ∧
      (∃ after, history = (opened address settings now epoch).opening began ++ after ∧
        ∀ e ∈ after, e.isOfRedial = false) ∧
      (∀ m c' events, c.next? m = some (c', events) → Ended c → Ended c') ∧
      (schedule = .await → ∀ t m c' events, c.admits .await m = true →
        c.next? m = some (c', events) → NoticesFailure events t m →
        EndsAtOnce t c' (history ++ events))) := by
  refine ⟨fun hreconnect schedule c history hrun hclose hdrop => ?_,
    fun hreconnect schedule c history hrun => ?_⟩
  · have hopening : ∀ e ∈ (opened address settings now epoch).opening began,
        e.isOfEnd = false := by simp [opening, Event.isOfEnd]
    obtain ⟨hheals, hhistory⟩ := hrun.2.heals (heals_opened hreconnect) hopening hclose hdrop
    exact hheals.unending hhistory
  · obtain ⟨hnever, hafter⟩ := hrun.2.neverRedials (neverRedials_opened hreconnect)
    refine ⟨hnever.state, hafter,
      fun m c' events hnext hended => hended.of_transition hnever (.of_next? hnext), ?_⟩
    rintro rfl t m c' events hadmits hnext hnotices
    have hunmarked : (opened address settings now epoch).isAborted t = false := by
      unfold opened isAborted
      cases settings.pingInterval? <;> cases t <;> rfl
    refine hnotices.endsAtOnce (hrun.2.steady (steady_opened hreconnect)) hadmits hnext
      fun hnow => hrun.2.isAborted (fun hwas => ?_) hnow
    rw [hunmarked] at hwas
    cases hwas

/-- The far end closes the socket, and the dials after that fail. -/
def failedDialMoves : List Move :=
  [.step .reader (.frame .close), .step .reader .go, .step .reader .go, .step .reader .written,
    .step .reader .suspend, .elapse 5000000000, .step .reader .go, .step .reader .go,
    .step .reader .dialFailed, .step .reader .suspend, .elapse 5000000000, .step .reader .go,
    .step .reader .go, .step .reader .dialFailed, .step .reader .suspend]

/-- A write of a ping is under way. -/
def pingMoves : List Move :=
  [.elapse 1000000000, .step .heartbeat .go, .step .heartbeat .go, .step .heartbeat .go]

/-- The heartbeat ends the stream. -/
def endingMoves : List Move :=
  [.step .heartbeat .go, .step .heartbeat .go, .step .heartbeat .go, .step .heartbeat .go,
    .step .heartbeat .go, .step .heartbeat .go, .step .heartbeat .written,
    .step .heartbeat .written, .step .heartbeat .go]

/-- A stream that dials again outlives two failed dials; one that does not is closed after a failed
ping without any call to close. -/
theorem decides_after_failures :
    (∃ c history, Run .await "ws://host/" { pingIntervalMs := 0 } 0 0 0 c history ∧
      c.counters.failedDials = 2 ∧ Unending c history) ∧
    ∃ c c' events history d later,
      Run .await "ws://host/" { pingIntervalMs := 1000, reconnect := false } 0 0 0 c history ∧
      c.next? (.step .heartbeat .writeFailed) = some (c', events) ∧
      EndsAtOnce .heartbeat c' (history ++ events) ∧
      Reaches .await c' (history ++ events) d later ∧ d.state = .closed := by
  constructor
  · have hrun : Run .await "ws://host/" { pingIntervalMs := 0 } 0 0 0 _ _ :=
      ⟨Nat.le_refl 0, Reaches.of_follow? failedDialMoves .refl rfl⟩
    have hdecides := (reconnect_decides "ws://host/" { pingIntervalMs := 0 } 0 0 0).1 rfl
    exact ⟨_, _, hrun, rfl, hdecides _ _ _ hrun (by simp [opening]) (by simp [opening])⟩
  · have hrun : Run .await "ws://host/" { pingIntervalMs := 1000, reconnect := false } 0 0 0 _ _ :=
      ⟨Nat.le_refl 0, Reaches.of_follow? pingMoves .refl rfl⟩
    have hdecides :=
      (reconnect_decides "ws://host/" { pingIntervalMs := 1000, reconnect := false } 0 0 0).2 rfl
    obtain ⟨-, -, -, hfailure⟩ := hdecides _ _ _ hrun
    have hnotices : NoticesFailure [.writeFailed 0 .ping, .pingFailed (some 0)] .heartbeat
        (.step .heartbeat .writeFailed) := .ping (List.mem_cons_of_mem _ List.mem_cons_self)
    have hends := hfailure rfl _ _ _ _ rfl rfl hnotices
    refine ⟨_, _, _, _, _, _, hrun, rfl, hends, Reaches.of_follow? endingMoves .refl rfl, ?_⟩
    exact hends.closed _ _ (Reaches.of_follow? endingMoves .refl rfl) rfl (by simp [opening])
      (by simp [opening])

end Connection

end Uplink.Stream
