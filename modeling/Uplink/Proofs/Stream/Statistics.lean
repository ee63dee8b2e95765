import Uplink.Proofs.Stream.FanOut
import Uplink.Proofs.Stream.Redial

/-! The statistics of a stream are counts of its history. Each counter goes up with one kind of
event; how often sockets were dialed, put in place and given up is then a matter of where the reader
stands, or stood when it was stopped. -/

namespace Uplink.Stream

/-- Whether an event shows that the far end is alive: a socket is in place, or a ping or a pong was
read. -/
def Event.isSign : Event → Bool
  | .installed _ | .read _ (.ping _) | .read _ (.pong _) => true
  | _ => false

/-- Whether an event tells of what only the reader does: reading, dialing, and giving a socket up or
taking one into use. -/
def Event.isOfReader : Event → Bool
  | .read .. | .installed _ | .dialEnded .. | .entered .reconnecting | .entered .opened => true
  | _ => false

/-- Whether a new write half is in place and not yet in use. -/
def ReaderPoint.isOpening : ReaderPoint → Bool
  | .opening _ => true
  | _ => false

/-- Whether the stream has begun to dial again and is not open on another socket yet. -/
def ReaderPoint.isReconnecting : ReaderPoint → Bool
  | .retiring | .discarding .. | .resting _ | .redialing | .dialing _ | .placing _
  | .opening _ => true
  | _ => false

/-- Where a reader stands that goes from one point to another, or stood if it finishes. -/
def ReaderPoint.stand (p : ReaderPoint) : ReaderPoint → ReaderPoint
  | .finished => p
  | q => q

namespace Connection

/-- How many calls to send have returned that the message was sent. -/
def sendsReturned (history : List Event) : Nat :=
  history.countP fun
    | .sendReturned _ .sent => true
    | _ => false

/-- How many dials have failed. -/
def failedDials (history : List Event) : Nat :=
  history.countP fun
    | .dialEnded _ false => true
    | _ => false

/-- How many sockets were put in place. -/
def installations (history : List Event) : Nat :=
  history.countP fun
    | .installed _ => true
    | _ => false

/-- How often the stream was opened. -/
def openings (history : List Event) : Nat :=
  history.countP fun
    | .entered .opened => true
    | _ => false

variable {c c' : Connection} {history events : List Event} {t : Task} {e : Ending}
  {next : Option Ending} {m : Move} {schedule : Schedule}

/-! ### Counters -/

/-- Each counter goes up with its own events. -/
structure Counts (c c' : Connection) (events : List Event) : Prop where
  received : c'.counters.received = c.counters.received + (messagesOffered events).length
  sent : c'.counters.sent = c.counters.sent + sendsReturned events
  reconnects : c'.counters.reconnects = c.counters.reconnects + openings events
  failedDials : c'.counters.failedDials = c.counters.failedDials + failedDials events

theorem EndingStep.counts {d : Connection} (h : EndingStep c t e c' next events)
    (hd : d.counters = c'.counters) : Counts c d events := by
  cases h with
  | say => split <;> exact ⟨by rw [hd]; rfl, by rw [hd]; rfl, by rw [hd]; rfl, by rw [hd]; rfl⟩
  | _ => exact ⟨by rw [hd]; rfl, by rw [hd]; rfl, by rw [hd]; rfl, by rw [hd]; rfl⟩

theorem ReaderStep.counts (h : ReaderStep c c' events) : Counts c c' events := by
  cases h with
  | read f => cases f <;> exact ⟨rfl, rfl, rfl, rfl⟩
  | pong => split <;> exact ⟨rfl, rfl, rfl, rfl⟩
  | ending _ hending => exact hending.counts rfl
  | _ => exact ⟨rfl, rfl, rfl, rfl⟩

theorem HeartbeatStep.counts (h : HeartbeatStep c c' events) : Counts c c' events := by
  cases h with
  | ending _ hending => exact hending.counts rfl
  | _ => exact ⟨rfl, rfl, rfl, rfl⟩

theorem SendStep.counts {n : CallId} (h : SendStep c n c' events) : Counts c c' events := by
  cases h with
  | fail _ hresult => rcases hresult with rfl | rfl <;> exact ⟨rfl, rfl, rfl, rfl⟩
  | _ => exact ⟨rfl, rfl, rfl, rfl⟩

theorem CloseStep.counts {n : CallId} (h : CloseStep c n c' events) : Counts c c' events := by
  cases h with
  | @abort t => cases t <;> exact ⟨rfl, rfl, rfl, rfl⟩
  | ending _ hending => exact hending.counts rfl
  | ended _ hending => cases hending <;> exact ⟨rfl, rfl, rfl, rfl⟩
  | _ => exact ⟨rfl, rfl, rfl, rfl⟩

theorem Transition.counts (h : Transition c m c' events) : Counts c c' events := by
  cases h with
  | @suspend t => cases t <;> exact ⟨rfl, rfl, rfl, rfl⟩
  | reader h => exact h.counts
  | heartbeat h => exact h.counts
  | sending h => exact h.counts
  | closing h => exact h.counts
  | reapReader =>
    unfold abandoned
    split <;> exact ⟨rfl, rfl, rfl, rfl⟩
  | dropHandle =>
    obtain ⟨_, _, habort⟩ := abort_frame c.tasks { c with cancelled := true, tasks := [] }
    rw [habort]
    exact ⟨rfl, rfl, rfl, rfl⟩
  | _ => exact ⟨rfl, rfl, rfl, rfl⟩

/-- The counters of a stream after a history, which its first opening is part of. -/
structure Totals (c : Connection) (history : List Event) : Prop where
  received : (messagesOffered history).length = c.counters.received
  sent : sendsReturned history = c.counters.sent
  reconnects : openings history = c.counters.reconnects + 1
  failedDials : Connection.failedDials history = c.counters.failedDials

theorem Totals.step (h : Totals c history) (hstep : Counts c c' events) :
    Totals c' (history ++ events) where
  received := by
    rw [messagesOffered, List.filterMap_append, List.length_append, hstep.received, ← h.received]
    rfl
  sent := by rw [sendsReturned, List.countP_append, hstep.sent, ← h.sent]; rfl
  reconnects := by
    have hbefore := h.reconnects
    rw [hstep.reconnects, openings, List.countP_append]
    unfold openings at *
    omega
  failedDials := by
    rw [Connection.failedDials, List.countP_append, hstep.failedDials, ← h.failedDials]; rfl

theorem Run.totals {address : String} {settings : StreamSettings} {began now : Instant}
    {epoch : Int} (hrun : Run schedule address settings began now epoch c history) :
    Totals c history := by
  obtain ⟨-, hreaches⟩ := hrun
  induction hreaches with
  | refl => exact ⟨rfl, rfl, rfl, rfl⟩
  | move _ _ hnext ih => exact ih.step (Transition.of_next? hnext).counts

/-! ### Sockets -/

/-- What is noted while the reader goes from one point to another: a dial that succeeds is followed
by the socket that is put in place, and that by the stream that is open again. -/
structure Balanced (p q : ReaderPoint) (events : List Event) : Prop where
  dials : dials events + p.reopens.toNat = openings events + q.reopens.toNat
  installations : installations events + p.isOpening.toNat = openings events + q.isOpening.toNat
  reconnections :
    reconnections events + p.isReconnecting.toNat = openings events + q.isReconnecting.toNat

theorem EndingStep.balanced (h : EndingStep c t e c' next events) (p : ReaderPoint) :
    Balanced p p events := by
  cases h with
  | say => split <;> exact ⟨rfl, rfl, rfl⟩
  | _ => exact ⟨rfl, rfl, rfl⟩

theorem ReaderStep.balanced (h : ReaderStep c c' events) :
    Balanced c.reader.point (c.reader.point.stand c'.reader.point) events := by
  cases h with
  | read f hp => rw [hp]; cases f <;> exact ⟨rfl, rfl, rfl⟩
  | offer hp =>
    rw [hp, point_readerAt]
    cases Subscriptions.gone _ <;> exact ⟨rfl, rfl, rfl⟩
  | pong _ hp => rw [hp]; split <;> exact ⟨rfl, rfl, rfl⟩
  | @ending e _ next _ hp hending =>
    obtain ⟨hdials, hinstallations, hreconnections⟩ := hending.balanced (.ending e)
    rw [hp, point_readerAt]
    cases next <;> exact ⟨hdials, hinstallations, hreconnections⟩
  | _ => rw [‹c.reader.point = _›]; exact ⟨rfl, rfl, rfl⟩

/-- What a move that is no step of the reader means for the reader and for what is heard of the far
end. -/
structure LeavesReader (c c' : Connection) (events : List Event) : Prop where
  point : c'.reader.point = c.reader.point ∨ c.reader.parked = true ∧ c'.reader.point = .finished
  lastHeartbeat : c'.lastHeartbeat = c.lastHeartbeat
  events : ∀ e ∈ events, e.isOfReader = false

theorem EndingStep.isOfReader (h : EndingStep c t e c' next events) :
    ∀ e ∈ events, e.isOfReader = false := by
  cases h with
  | say =>
    simp only [List.mem_singleton, forall_eq]
    split <;> rfl
  | _ => simp [Event.isOfReader]

theorem HeartbeatStep.leavesReader (h : HeartbeatStep c c' events) : LeavesReader c c' events := by
  cases h with
  | ending _ hending =>
    have hevents := hending.isOfReader
    obtain ⟨_, _, _, _, _, rfl⟩ := hending.frame
    exact ⟨.inl rfl, rfl, hevents⟩
  | _ => exact ⟨.inl rfl, rfl, by simp [Event.isOfReader]⟩

theorem SendStep.leavesReader {n : CallId} (h : SendStep c n c' events) :
    LeavesReader c c' events := by
  cases h <;> exact ⟨.inl rfl, rfl, by simp [Event.isOfReader]⟩

theorem CloseStep.leavesReader {n : CallId} (h : CloseStep c n c' events) :
    LeavesReader c c' events := by
  cases h with
  | @abort t => cases t <;> exact ⟨.inl rfl, rfl, by simp [Event.isOfReader]⟩
  | ending _ hending =>
    have hevents := hending.isOfReader
    obtain ⟨_, _, _, _, _, rfl⟩ := hending.frame
    exact ⟨.inl rfl, rfl, hevents⟩
  | ended _ hending =>
    have hevents := hending.isOfReader
    obtain ⟨_, _, _, _, _, rfl⟩ := hending.frame
    refine ⟨.inl rfl, rfl, fun e he => ?_⟩
    rcases List.mem_append.mp he with he | he
    · exact hevents e he
    · cases List.mem_singleton.mp he
      rfl
  | _ => exact ⟨.inl rfl, rfl, by simp [Event.isOfReader]⟩

/-- A move is a step of the reader, or leaves it alone. -/
theorem Transition.readerStep_or (h : Transition c m c' events) :
    ReaderStep c c' events ∨ LeavesReader c c' events := by
  cases h with
  | @suspend t => cases t <;> exact .inr ⟨.inl rfl, rfl, by simp⟩
  | reader h => exact .inl h
  | heartbeat h => exact .inr h.leavesReader
  | sending h => exact .inr h.leavesReader
  | closing h => exact .inr h.leavesReader
  | reapReader _ hparked =>
    refine .inr ⟨.inr ⟨hparked, rfl⟩, rfl, ?_⟩
    unfold abandoned
    split <;> simp [Event.isOfReader]
  | dropHandle =>
    obtain ⟨_, _, habort⟩ := abort_frame c.tasks { c with cancelled := true, tasks := [] }
    rw [habort]
    exact .inr ⟨.inl rfl, rfl, by simp [Event.isOfReader]⟩
  | _ => exact .inr ⟨.inl rfl, rfl, by simp [Event.isOfReader]⟩

theorem countP_of_isOfReader {f : Event → Bool} (hf : ∀ e, f e = true → e.isOfReader = true)
    (h : ∀ e ∈ events, e.isOfReader = false) : events.countP f = 0 := by
  refine List.countP_eq_zero.mpr fun e he hfe => ?_
  cases (h e he).symm.trans (hf e hfe)

theorem LeavesReader.balanced (h : LeavesReader c c' events) (p : ReaderPoint) :
    Balanced p p events := by
  have hopenings : openings events = 0 := countP_of_isOfReader (fun e he => by
    split at he <;> first | rfl | cases he) h.events
  have hdials : dials events = 0 := countP_of_isOfReader (fun e he => by
    split at he <;> first | rfl | cases he) h.events
  have hinstallations : installations events = 0 := countP_of_isOfReader (fun e he => by
    split at he <;> first | rfl | cases he) h.events
  have hreconnections : reconnections events = 0 := countP_of_isOfReader (fun e he => by
    split at he <;> first | rfl | cases he) h.events
  exact ⟨by rw [hdials, hopenings], by rw [hinstallations, hopenings],
    by rw [hreconnections, hopenings]⟩

/-- The sockets of a history, which the first opening of the stream is part of, by the point where
the reader stands or stood when it finished. -/
structure Ledger (history : List Event) (p : ReaderPoint) : Prop where
  dials : Connection.dials history = openings history + p.reopens.toNat
  installations : Connection.installations history = openings history + p.isOpening.toNat
  reconnections :
    Connection.reconnections history + 1 = openings history + p.isReconnecting.toNat

theorem Ledger.step {p q : ReaderPoint} (h : Ledger history p) (hstep : Balanced p q events) :
    Ledger (history ++ events) q := by
  have hopenings : openings (history ++ events) = openings history + openings events :=
    List.countP_append
  have hinstallations : Connection.installations (history ++ events) =
      Connection.installations history + Connection.installations events := List.countP_append
  obtain ⟨hd, hi, hr⟩ := h
  obtain ⟨hd', hi', hr'⟩ := hstep
  refine ⟨?_, ?_, ?_⟩
  · rw [dials_append, hopenings]
    omega
  · rw [hinstallations, hopenings]
    omega
  · rw [reconnections_append, hopenings]
    omega

/-- Where the reader stands after a history, or where it stood at the moment of this run when it
finished. -/
inductive StoodAt (schedule : Schedule) (start : Connection) (past : List Event) (c : Connection)
    (history : List Event) : ReaderPoint → Prop where
  | stands : c.hasFinished .reader = false → StoodAt schedule start past c history c.reader.point
  | stopped {before after : Connection} {earlier events : List Event} {m : Move} :
      Reaches schedule start past before earlier → before.admits schedule m = true →
      before.next? m = some (after, events) → before.hasFinished .reader = false →
      after.hasFinished .reader = true → Reaches schedule after (earlier ++ events) c history →
      c.hasFinished .reader = true → StoodAt schedule start past c history before.reader.point

/-- A reader that has finished takes no step. -/
theorem ReaderStep.hasFinished (h : ReaderStep c c' events) : c.hasFinished .reader = false := by
  cases h <;> simp [Connection.hasFinished, *]

theorem stand_eq (p : ReaderPoint) (c : Connection) :
    p.stand c.reader.point = if c.hasFinished .reader then p else c.reader.point := by
  cases hp : c.reader.point <;> simp [Connection.hasFinished, hp, ReaderPoint.stand]

theorem LeavesReader.hasFinished (h : LeavesReader c c' events)
    (hfinished : c.hasFinished .reader = true) : c'.hasFinished .reader = true := by
  rcases h.point with hsame | ⟨-, hnow⟩
  · simpa only [Connection.hasFinished, hsame] using hfinished
  · simp only [Connection.hasFinished, hnow]

theorem Transition.balanced (h : Transition c m c' events) :
    Balanced c.reader.point (c.reader.point.stand c'.reader.point) events := by
  rcases h.readerStep_or with hstep | hleaves
  · exact hstep.balanced
  · have hstand : c.reader.point.stand c'.reader.point = c.reader.point := by
      rcases hleaves.point with hsame | ⟨-, hnow⟩
      · rw [hsame]
        cases c.reader.point <;> rfl
      · rw [hnow]
        rfl
    rw [hstand]
    exact hleaves.balanced _

/-- Only moves that leave the reader alone are made once it has finished. -/
theorem Transition.leavesReader (h : Transition c m c' events)
    (hfinished : c.hasFinished .reader = true) : LeavesReader c c' events :=
  h.readerStep_or.resolve_left fun hstep => by cases hfinished.symm.trans hstep.hasFinished

variable {start : Connection} {past : List Event}

/-- A history keeps to the point of a reader that has not finished. -/
theorem Reaches.ledger (h : Reaches schedule start past c history)
    (hpast : Ledger past start.reader.point) (hrunning : c.hasFinished .reader = false) :
    Ledger history c.reader.point := by
  induction h with
  | refl => exact hpast
  | @move c₁ c₂ _ _ _ _ _ hnext ih =>
    have hstep := Transition.of_next? hnext
    have hbefore : c₁.hasFinished .reader = false := by
      rw [← Bool.not_eq_true]
      intro hfinished
      cases hrunning.symm.trans ((hstep.leavesReader hfinished).hasFinished hfinished)
    have hledger := (ih hbefore).step hstep.balanced
    rw [stand_eq, hrunning] at hledger
    exact hledger

/-- A history keeps to where the reader stood once it has finished. -/
theorem Reaches.ledger_of_hasFinished {p : ReaderPoint}
    (h : Reaches schedule start past c history) (hfinished : start.hasFinished .reader = true)
    (hpast : Ledger past p) : c.hasFinished .reader = true ∧ Ledger history p := by
  induction h with
  | refl => exact ⟨hfinished, hpast⟩
  | move _ _ hnext ih =>
    have hleaves := (Transition.of_next? hnext).leavesReader ih.1
    exact ⟨hleaves.hasFinished ih.1, ih.2.step (hleaves.balanced p)⟩

theorem StoodAt.ledger {p : ReaderPoint} (h : StoodAt schedule start past c history p)
    (hreaches : Reaches schedule start past c history) (hpast : Ledger past start.reader.point) :
    Ledger history p := by
  cases h with
  | stands hrunning => exact hreaches.ledger hpast hrunning
  | stopped hearlier _ hnext hrunning hstopped hlater =>
    have hledger := (hearlier.ledger hpast hrunning).step (Transition.of_next? hnext).balanced
    rw [stand_eq, hstopped] at hledger
    exact (hlater.ledger_of_hasFinished hstopped hledger).2

theorem Reaches.exists_stoodAt (h : Reaches schedule start past c history)
    (hstart : start.hasFinished .reader = false) :
    ∃ p, StoodAt schedule start past c history p := by
  induction h with
  | refl => exact ⟨_, .stands hstart⟩
  | @move c₁ c₂ _ _ _ hbefore hadmits hnext ih =>
    obtain ⟨p, hstood⟩ := ih
    cases hstood with
    | stopped hearlier hadmitted hmove hrunning hstopped hlater hfinished =>
      have hleaves := (Transition.of_next? hnext).leavesReader hfinished
      exact ⟨_, .stopped hearlier hadmitted hmove hrunning hstopped (hlater.move hadmits hnext)
        (hleaves.hasFinished hfinished)⟩
    | stands hrunning =>
      cases hfinished : c₂.hasFinished .reader with
      | true => exact ⟨_, .stopped hbefore hadmits hnext hrunning hfinished .refl hfinished⟩
      | false => exact ⟨_, .stands hfinished⟩

/-! ### Signs of the far end -/

/-- While a new write half is in place and not yet in use, only the reader moves. -/
theorem InTurn.readerStep_of_isOpening (hturn : InTurn c) (hadmits : c.admits .await m = true)
    (hp : c.reader.point.isOpening = true) (hstep : Transition c m c' events) :
    ReaderStep c c' events := by
  obtain ⟨s, hs⟩ : ∃ s, c.reader.point = .opening s := by
    cases hpoint : c.reader.point <;> rw [hpoint] at hp <;> first | exact ⟨_, rfl⟩ | cases hp
  have hbusy : c.isQuiet .reader ≠ true := fun hquiet => by
    cases hturn.mayPark_of_quiet hquiet (standing?_reader hs) rfl
  cases hstep with
  | reader hstep => exact hstep
  | @suspend t hwaits =>
    cases t with
    | reader => simp [waits, hs] at hwaits
    | _ => exact (hbusy (quiet_of_admits_step hadmits (by simp))).elim
  | heartbeat | sending | closing => exact (hbusy (quiet_of_admits_step hadmits (by simp))).elim
  | _ => exact (hbusy (quiet_of_isSettled hadmits)).elim

/-- The wall clock, in milliseconds, at the moment of this run that the latest sign of the far end
was noted: a socket put in place, the first one included, or a ping or a pong read. -/
inductive LastSign (schedule : Schedule) (start : Connection) (past : List Event) (c : Connection)
    (history : List Event) : Nat → Prop where
  | opening {since : List Event} : history = past ++ since → (∀ e ∈ since, e.isSign = false) →
      LastSign schedule start past c history start.wall
  | noted {before after : Connection} {earlier events since : List Event} {m : Move} :
      Reaches schedule start past before earlier → before.admits schedule m = true →
      before.next? m = some (after, events) → (∃ e ∈ events, e.isSign = true) →
      Reaches schedule after (earlier ++ events) c history →
      history = earlier ++ events ++ since → (∀ e ∈ since, e.isSign = false) →
      LastSign schedule start past c history before.wall

theorem LastSign.move {w : Nat} (h : LastSign schedule start past c history w)
    (hadmits : c.admits schedule m = true) (hnext : c.next? m = some (c', events))
    (hevents : ∀ e ∈ events, e.isSign = false) :
    LastSign schedule start past c' (history ++ events) w := by
  cases h with
  | opening hhistory hsince =>
    refine .opening (by rw [hhistory, List.append_assoc]) fun e he => ?_
    exact (List.mem_append.mp he).elim (hsince e) (hevents e)
  | noted hearlier hadmitted hmove hsign hlater hhistory hsince =>
    refine .noted hearlier hadmitted hmove hsign (hlater.move hadmits hnext)
      (by rw [hhistory, List.append_assoc _ _ events]) fun e he => ?_
    exact (List.mem_append.mp he).elim (hsince e) (hevents e)

/-- What a step means for the signs of the far end. The sign of a new socket is put down when the
reader comes to use it. -/
inductive SignStep (c c' : Connection) (events : List Event) : Prop where
  | none : c.reader.point.isOpening = false → (∀ e ∈ events, e.isSign = false) →
      c'.lastHeartbeat = c.lastHeartbeat → c'.reader.point.isOpening = false →
      SignStep c c' events
  | heard : (∃ e ∈ events, e.isSign = true) → c'.lastHeartbeat = c.wall →
      c'.reader.point.isOpening = false → SignStep c c' events
  | placed : (∃ e ∈ events, e.isSign = true) → c'.wall = c.wall →
      c'.reader.point.isOpening = true → SignStep c c' events
  | reopened : c.reader.point.isOpening = true → (∀ e ∈ events, e.isSign = false) →
      c'.lastHeartbeat = c.wall → c'.reader.point.isOpening = false → SignStep c c' events

theorem isSign_of_isOfReader (h : ∀ e ∈ events, e.isOfReader = false) :
    ∀ e ∈ events, e.isSign = false := by
  intro e he
  have hnot := h e he
  cases e <;> first | rfl | cases hnot

theorem ReaderStep.signStep (h : ReaderStep c c' events) : SignStep c c' events := by
  cases h with
  | read f hp =>
    cases f with
    | data | close => exact .none (by rw [hp]; rfl) (by simp [readFrame, Event.isSign]) rfl rfl
    | ping | pong => exact .heard ⟨_, List.mem_cons_self, rfl⟩ rfl rfl
  | offer hp =>
    refine .none (by rw [hp]; rfl) (by simp [Event.isSign]) rfl ?_
    rw [point_readerAt]
    cases Subscriptions.gone _ <;> rfl
  | pong _ hp => exact .none (by rw [hp]; rfl) (by split <;> simp [Event.isSign]) rfl rfl
  | place => exact .placed ⟨_, List.mem_cons_self, rfl⟩ rfl rfl
  | reopen hp => exact .reopened (by rw [hp]; rfl) (by simp [Event.isSign]) rfl rfl
  | @ending e _ next _ hp hending =>
    have hevents := isSign_of_isOfReader hending.isOfReader
    obtain ⟨_, _, _, _, _, rfl⟩ := hending.frame
    exact .none (by rw [hp]; rfl) hevents rfl (by cases next <;> rfl)
  | _ => exact .none (by rw [‹c.reader.point = _›]; rfl) (by simp [Event.isSign]) rfl rfl

/-- The latest sign of the far end is what the stream remembers of it, or is about to. -/
structure Heard (c : Connection) (w : Nat) : Prop where
  lastHeartbeat : c.reader.point.isOpening = false → c.lastHeartbeat = w
  opening : c.reader.point.isOpening = true → c.wall = w

theorem Heard.step {w : Nat} (h : Heard c w) (hstep : SignStep c c' events) :
    (∀ e ∈ events, e.isSign = false) ∧ Heard c' w ∨
      (∃ e ∈ events, e.isSign = true) ∧ Heard c' c.wall := by
  cases hstep with
  | none hp hevents hsame hp' =>
    refine .inl ⟨hevents, fun _ => hsame.trans (h.lastHeartbeat hp), fun hnow => ?_⟩
    cases hp'.symm.trans hnow
  | heard hsign hnow hp' =>
    refine .inr ⟨hsign, fun _ => hnow, fun hnow => ?_⟩
    cases hp'.symm.trans hnow
  | placed hsign hwall hp' =>
    refine .inr ⟨hsign, fun hnow => ?_, fun _ => hwall⟩
    cases hp'.symm.trans hnow
  | reopened hp hevents hnow hp' =>
    refine .inl ⟨hevents, fun _ => hnow.trans (h.opening hp), fun hnow => ?_⟩
    cases hp'.symm.trans hnow

theorem Reaches.exists_lastSign (h : Reaches .await start past c history) (hturn : InTurn start)
    (hstart : start.reader.point.isOpening = false) (hheard : start.lastHeartbeat = start.wall) :
    ∃ w, LastSign .await start past c history w ∧ Heard c w := by
  induction h with
  | refl =>
    refine ⟨_, .opening (List.append_nil _).symm (by simp), fun _ => hheard, fun hp => ?_⟩
    cases hstart.symm.trans hp
  | @move c₁ c₂ history events m hbefore hadmits hnext ih =>
    obtain ⟨w, hlast, hheard⟩ := ih
    have htransition := Transition.of_next? hnext
    have hsteps : ReaderStep c₁ c₂ events ∨
        c₁.reader.point.isOpening = false ∧ LeavesReader c₁ c₂ events := by
      cases hp : c₁.reader.point.isOpening with
      | true => exact .inl ((hbefore.inTurn hturn).readerStep_of_isOpening hadmits hp htransition)
      | false => exact htransition.readerStep_or.imp_right fun hleaves => ⟨rfl, hleaves⟩
    have hsign : SignStep c₁ c₂ events := by
      rcases hsteps with hstep | ⟨hp, hleaves⟩
      · exact hstep.signStep
      · refine .none hp (isSign_of_isOfReader hleaves.events) hleaves.lastHeartbeat ?_
        rcases hleaves.point with hsame | ⟨-, hnow⟩
        · rw [hsame, hp]
        · rw [hnow]
          rfl
    rcases hheard.step hsign with ⟨hevents, hheard⟩ | ⟨hevents, hheard⟩
    · exact ⟨w, hlast.move hadmits hnext hevents, hheard⟩
    · exact ⟨_, .noted hbefore hadmits hnext hevents .refl (List.append_nil _).symm (by simp),
        hheard⟩

/-! ### Statistics -/

theorem InTurn.isOpening_of_quiet (hturn : InTurn c) (hquiet : c.isQuiet .reader = true) :
    c.reader.point.isOpening = false := by
  cases hp : c.reader.point with
  | opening => cases hturn.mayPark_of_quiet hquiet (standing?_reader hp) rfl
  | _ => rfl

/-- Where tasks wait, no new write half is in place that is not in use. -/
theorem StoodAt.isOpening {p : ReaderPoint} (h : StoodAt .await start past c history p)
    (hreaches : Reaches .await start past c history) (hturn : InTurn start)
    (hquiet : c.isQuiet .reader = true) : p.isOpening = false := by
  cases h with
  | stands => exact (hreaches.inTurn hturn).isOpening_of_quiet hquiet
  | @stopped before after earlier events m hearlier hadmits hnext hrunning hstopped =>
    rw [← Bool.not_eq_true]
    intro hp
    have hstep := (hearlier.inTurn hturn).readerStep_of_isOpening hadmits hp (.of_next? hnext)
    cases hstep with
    | reopen => cases hstopped
    | _ => rw [‹before.reader.point = _›] at hp; cases hp

/-- Where tasks wait, every message that was read has been offered. -/
theorem InOrder.length_of_quiet (h : InOrder c history) (hquiet : c.isQuiet .reader = true) :
    (messagesOffered history).length = (messagesRead history).length := by
  have hnone : c.pending = [] := by
    rw [isQuiet, Bool.or_eq_true] at hquiet
    rcases hquiet with hfinished | hparked
    · cases hp : c.reader.point <;> simp [Connection.hasFinished, hp] at hfinished
      exact pending_eq_nil hp rfl
    · exact h.parked hparked
  rw [← List.append_nil (messagesOffered history), ← hnone, h.offered, List.length_map]

/-- Wherever the tasks of a stream wait, its statistics are counts of its history: of the messages
read from all its sockets, of the calls to send that returned that their message was sent, of the
dials that failed, and of the sockets put in place after the first. While the reader dials again, or
if that is where it was stopped, the stream began to do so once more than it succeeded; a dial
counts as a success once its socket is in place. The far end was last heard of when a socket was put
in place or a ping or a pong was read. -/
theorem Run.statistics {address : String} {settings : StreamSettings} {began now : Instant}
    {epoch : Int} (hrun : Run .await address settings began now epoch c history)
    (hsettled : c.isSettled = true) :
    c.counters.received = (messagesRead history).length ∧
      c.counters.sent = sendsReturned history ∧
      c.counters.failedDials = failedDials history ∧
      c.counters.reconnects + 1 = installations history ∧
      (∃ p, StoodAt .await (opened address settings now epoch)
        ((opened address settings now epoch).opening began) c history p) ∧
      (∀ p, StoodAt .await (opened address settings now epoch)
          ((opened address settings now epoch).opening began) c history p →
        dials history = c.counters.reconnects + 1 + (if p.reopens then 1 else 0) ∧
        reconnections history = c.counters.reconnects + (if p.isReconnecting then 1 else 0)) ∧
      LastSign .await (opened address settings now epoch)
        ((opened address settings now epoch).opening began) c history c.lastHeartbeat := by
  have hquiet : c.isQuiet .reader = true := quiet_of_isSettled hsettled
  have htotals := hrun.totals
  have hopenings := htotals.reconnects
  have hturn := inTurn_opened address settings now epoch
  have hledger : ∀ p, StoodAt .await (opened address settings now epoch)
      ((opened address settings now epoch).opening began) c history p → Ledger history p :=
    fun p hstood => hstood.ledger hrun.2 ⟨rfl, rfl, rfl⟩
  obtain ⟨p, hstood⟩ := hrun.2.exists_stoodAt rfl
  obtain ⟨w, hlast, hheard⟩ := hrun.2.exists_lastSign hturn rfl rfl
  refine ⟨?_, htotals.sent.symm, htotals.failedDials.symm, ?_, ⟨p, hstood⟩, fun p hstood => ?_, ?_⟩
  · rw [← htotals.received, hrun.inOrder.length_of_quiet hquiet]
  · rw [(hledger p hstood).installations, hstood.isOpening hrun.2 hturn hquiet, hopenings]
    rfl
  · have hdials := (hledger p hstood).dials
    have hreconnections := (hledger p hstood).reconnections
    rw [hopenings] at hdials hreconnections
    refine ⟨?_, ?_⟩
    · rw [hdials]
      cases p.reopens <;> rfl
    · cases hp : p.isReconnecting <;> simp [hp] at hreconnections ⊢ <;> omega
  · rw [hheard.lastHeartbeat ((hrun.2.inTurn hturn).isOpening_of_quiet hquiet)]
    exact hlast

/-- A message, a ping and a call to send; then the socket is lost, one dial fails and the next does
not. -/
def redialMoves : List Move :=
  [.step .reader (.frame (.data (.binary [49]))), .step .reader .go, .step .reader .suspend,
    .elapse 1000000, .step .reader (.frame (.ping [])), .step .reader .go, .step .reader .written,
    .step .reader .suspend, .send (.binary [50]), .step (.send 0) .go, .step (.send 0) .go,
    .step (.send 0) .written, .step .reader .readFailed, .step .reader .go, .step .reader .go,
    .step .reader .written, .step .reader .suspend, .elapse 10000000000, .step .reader .go,
    .step .reader .go, .step .reader .suspend, .step .reader .dialFailed, .step .reader .suspend,
    .elapse 10000000000, .step .reader .go, .step .reader .go, .step .reader .suspend,
    .step .reader .dialed, .step .reader .go, .step .reader .go, .step .reader .suspend,
    .elapse 1000000]

/-- After such a run, the statistics are what it did. -/
theorem statistics_after_redial : ∃ c history,
    Run .await "ws://host/" { pingIntervalMs := 0 } 0 0 0 c history ∧ c.isSettled = true ∧
      c.counters = ⟨1, 1, 0, 1, 1⟩ ∧ (messagesRead history).length = 1 ∧
      sendsReturned history = 1 ∧ failedDials history = 1 ∧ installations history = 2 ∧
      dials history = 2 ∧ reconnections history = 1 ∧ c.lastHeartbeat = 20001 ∧ c.wall = 20002 ∧
      LastSign .await (opened "ws://host/" { pingIntervalMs := 0 } 0 0)
        ((opened "ws://host/" { pingIntervalMs := 0 } 0 0).opening 0) c history 20001 := by
  have hrun : ∃ c history,
      Run .await "ws://host/" { pingIntervalMs := 0 } 0 0 0 c history ∧ c.isSettled = true ∧
        c.counters = ⟨1, 1, 0, 1, 1⟩ ∧ c.hasFinished .reader = false ∧
        c.reader.point.reopens = false ∧ c.reader.point.isReconnecting = false ∧
        c.lastHeartbeat = 20001 ∧ c.wall = 20002 :=
    ⟨_, _, ⟨Nat.le_refl 0, Reaches.of_follow? redialMoves .refl rfl⟩, rfl, rfl, rfl, rfl, rfl, rfl,
      rfl⟩
  obtain ⟨c, history, hrun, hsettled, hcounters, hrunning, hreopens, hreconnecting, hrest⟩ := hrun
  obtain ⟨hheard, hwall⟩ := hrest
  obtain ⟨hreceived, hsent, hfailed, hinstalled, -, hstood, hlast⟩ := hrun.statistics hsettled
  obtain ⟨hdials, hreconnections⟩ := hstood _ (.stands hrunning)
  rw [hcounters] at hreceived hsent hfailed hinstalled hdials hreconnections
  rw [hreopens] at hdials
  rw [hreconnecting] at hreconnections
  exact ⟨c, history, hrun, hsettled, hcounters, hreceived.symm, hsent.symm, hfailed.symm,
    hinstalled.symm, hdials, hreconnections, hheard, hwall, hheard ▸ hlast⟩

end Connection

end Uplink.Stream
