import Uplink.Proofs.Stream.Lifecycle
import Uplink.Proofs.Stream.Noted
import Uplink.Proofs.Stream.Statistics

/-! When a stream dials again. Whichever way it came to dial, its reader rests for the delay between
the end of one dial and the start of the next, and looks at the cancellation on the way; so dials
are apart by the delay also when every socket is lost as soon as it is opened, and a stream that is
cancelled starts no dial and does not open by one that it had started. -/

namespace Uplink.Stream

/-- Whether an event tells of the start or the end of a dial. -/
def Event.isOfDialing : Event → Bool
  | .dialStarted _ | .dialEnded .. | .dialAbandoned _ => true
  | _ => false

namespace Connection

/-- The latest start or end of a dial. -/
def lastOfDialing? (history : List Event) : Option Event :=
  (history.filter Event.isOfDialing).getLast?

/-- Whether an event fits a history: a dial starts after the rest that follows the end of the dial
before it, and ends in time if no wait is overrun. -/
def Fits (schedule : Schedule) (delay limit : Nat) (history : List Event) : Event → Prop
  | .dialStarted t => .cancelled ∉ history ∧ ∃ ended succeeded,
    lastOfDialing? history = some (.dialEnded ended succeeded) ∧ ended + delay ≤ t
  | .dialEnded t _ | .dialAbandoned t => ∃ started,
    lastOfDialing? history = some (.dialStarted started) ∧ started ≤ t ∧
      (schedule = .punctual → t ≤ started + limit)
  | _ => True

/-- What holds of the latest event of dialing while the reader is at a point. -/
def DialsRightly (schedule : Schedule) (c : Connection) (last : Option Event) : ReaderPoint → Prop
  | .dialing since => last = some (.dialStarted since) ∧ since ≤ c.now ∧
    (schedule = .punctual → c.now ≤ since + c.handshakeTimeout)
  | .resting due => ∃ ended succeeded,
    last = some (.dialEnded ended succeeded) ∧ ended + c.reconnectDelay ≤ due
  | .redialing => ∃ ended succeeded,
    last = some (.dialEnded ended succeeded) ∧ ended + c.reconnectDelay ≤ c.now
  | .finished => ∀ since, last ≠ some (.dialStarted since)
  | _ => ∃ ended succeeded, last = some (.dialEnded ended succeeded) ∧ ended ≤ c.now

/-- What holds of dialing between any two moves, after a history. -/
structure Paced (schedule : Schedule) (c : Connection) (history : List Event) : Prop where
  dials : DialsRightly schedule c (lastOfDialing? history) c.reader.point
  apart : c.reader.point.isReconnecting = true → c.state ≠ .opened

/-- A stream that was cancelled while it dialed: it does not come to be open. -/
structure Stopped (c : Connection) : Prop where
  cancelled : c.cancelled = true
  point : c.reader.point = .finished ∨ ∃ since, c.reader.point = .dialing since
  state : c.state ≠ .opened

variable {c c' : Connection} {history events before after : List Event} {t : Task} {e : Ending}
  {next : Option Ending} {m : Move} {schedule : Schedule} {delay limit : Nat} {x : Event}

/-! ### Histories -/

theorem lastOfDialing?_append_eq (h : ∀ x ∈ events, x.isOfDialing = false) :
    lastOfDialing? (history ++ events) = lastOfDialing? history := by
  have hnone : events.filter Event.isOfDialing = [] :=
    List.filter_eq_nil_iff.mpr fun x hx => by simp [h x hx]
  rw [lastOfDialing?, List.filter_append, hnone, List.append_nil, lastOfDialing?]

theorem lastOfDialing?_concat (h : x.isOfDialing = true) :
    lastOfDialing? (history ++ [x]) = some x := by
  rw [lastOfDialing?, List.filter_append, List.filter_cons_of_pos h, List.filter_nil,
    List.getLast?_concat]

theorem fits_of_isOfDialing_eq_false (h : x.isOfDialing = false) :
    Fits schedule delay limit history x := by
  cases x with
  | dialStarted | dialEnded | dialAbandoned => cases h
  | _ => trivial

theorem fits_singleton (h : Fits schedule delay limit history x) : ∀ before y after,
    [x] = before ++ y :: after → Fits schedule delay limit (history ++ before) y := by
  intro before y after heq
  cases before with
  | nil =>
    cases heq
    rw [List.append_nil]
    exact h
  | cons => simp at heq

/-- What one more move notes fits, if each event that it notes fits what was there before it. -/
theorem fits_append {past later : List Event}
    (h : ∀ before x after, later = before ++ x :: after →
      Fits schedule delay limit (past ++ before) x)
    (hevents : ∀ before x after, events = before ++ x :: after →
      Fits schedule delay limit (past ++ later ++ before) x) :
    ∀ before x after, later ++ events = before ++ x :: after →
      Fits schedule delay limit (past ++ before) x := by
  intro before x after heq
  rcases split_append heq with ⟨rest, rfl, -⟩ | ⟨rest, rfl, hrest⟩
  · exact h before x rest rfl
  · rw [← List.append_assoc]
    exact hevents rest x after hrest

/-! ### Steps -/

theorem EndingStep.isOfDialing (h : EndingStep c t e c' next events) :
    ∀ x ∈ events, x.isOfDialing = false := by
  cases h with
  | say =>
    simp only [List.mem_singleton, forall_eq]
    split <;> rfl
  | _ => simp [Event.isOfDialing]

/-- What a step of a task other than the reader leaves as it is of what dialing depends on. -/
structure LeavesDialing (c c' : Connection) (events : List Event) : Prop where
  reader : c'.reader.point = c.reader.point
  now : c'.now = c.now
  settings : c'.settings = c.settings
  state : c'.state = c.state ∨ c'.state.isLive = false
  events : ∀ x ∈ events, x.isOfDialing = false

theorem HeartbeatStep.leavesDialing (h : HeartbeatStep c c' events) :
    LeavesDialing c c' events := by
  cases h with
  | ending _ hending =>
    have hevents := hending.isOfDialing
    have hstate := hending.state_eq_or_ended
    obtain ⟨_, _, _, _, _, rfl⟩ := hending.frame
    exact ⟨rfl, rfl, rfl, hstate, hevents⟩
  | _ => exact ⟨rfl, rfl, rfl, .inl rfl, by simp [Event.isOfDialing]⟩

theorem SendStep.leavesDialing {n : CallId} (h : SendStep c n c' events) :
    LeavesDialing c c' events := by
  cases h <;> exact ⟨rfl, rfl, rfl, .inl rfl, by simp [Event.isOfDialing]⟩

theorem CloseStep.leavesDialing {n : CallId} (h : CloseStep c n c' events) :
    LeavesDialing c c' events := by
  cases h with
  | @abort t => cases t <;> exact ⟨rfl, rfl, rfl, .inl rfl, by simp [Event.isOfDialing]⟩
  | ending _ hending =>
    have hevents := hending.isOfDialing
    have hstate := hending.state_eq_or_ended
    obtain ⟨_, _, _, _, _, rfl⟩ := hending.frame
    exact ⟨rfl, rfl, rfl, hstate, hevents⟩
  | ended _ hending =>
    have hevents := hending.isOfDialing
    have hstate := hending.state_eq_or_ended
    obtain ⟨_, _, _, _, _, rfl⟩ := hending.frame
    refine ⟨rfl, rfl, rfl, hstate, fun x hx => ?_⟩
    rcases List.mem_append.mp hx with hx | hx
    · exact hevents x hx
    · cases List.mem_singleton.mp hx
      rfl
  | _ => exact ⟨rfl, rfl, rfl, .inl rfl, by simp [Event.isOfDialing]⟩

/-- What a move means for dialing: the reader takes a step or comes to its end, time passes, or
dialing is left alone. -/
inductive DialMove (c : Connection) : Move → Connection → List Event → Prop where
  | reader {m : Move} {c' : Connection} {events : List Event} : ReaderStep c c' events →
      DialMove c m c' events
  | reap {m : Move} {c' : Connection} : c'.reader.point = .finished → DialMove c m c' c.abandoned
  | elapse (nanos : Nat) : DialMove c (.elapse nanos) { c with now := c.now + nanos } []
  | leave {m : Move} {c' : Connection} {events : List Event} : LeavesDialing c c' events →
      DialMove c m c' events

theorem Transition.dialMove (h : Transition c m c' events) : DialMove c m c' events := by
  cases h with
  | @suspend t => cases t <;> exact .leave ⟨rfl, rfl, rfl, .inl rfl, by simp⟩
  | reader h => exact .reader h
  | heartbeat h => exact .leave h.leavesDialing
  | sending h => exact .leave h.leavesDialing
  | closing h => exact .leave h.leavesDialing
  | reapReader => exact .reap rfl
  | dropHandle =>
    obtain ⟨_, _, habort⟩ := abort_frame c.tasks { c with cancelled := true, tasks := [] }
    rw [habort]
    exact .leave ⟨rfl, rfl, rfl, .inl rfl, by simp [Event.isOfDialing]⟩
  | elapse n => exact .elapse n
  | _ => exact .leave ⟨rfl, rfl, rfl, .inl rfl, by simp [Event.isOfDialing]⟩

/-- Which moves tell of dialing, and what they tell. -/
inductive TellsOfDialing (c : Connection) : List Event → Prop where
  | start : c.reader.point = .redialing → c.cancelled = false →
      TellsOfDialing c [.dialStarted c.now]
  | finish {since : Instant} (succeeded : Bool) : c.reader.point = .dialing since →
      TellsOfDialing c [.dialEnded c.now succeeded]
  | abandon {since : Instant} : c.reader.point = .dialing since →
      TellsOfDialing c [.dialAbandoned c.now]
  | nothing {events : List Event} : (∀ x ∈ events, x.isOfDialing = false) →
      TellsOfDialing c events

theorem ReaderStep.tellsOfDialing (h : ReaderStep c c' events) : TellsOfDialing c events := by
  cases h with
  | redial hp hcancelled => exact .start hp hcancelled
  | abandon hp => exact .abandon hp
  | dialed hp => exact .finish true hp
  | dialFailed hp => exact .finish false hp
  | read f => cases f <;> exact .nothing (by simp [readFrame, Event.isOfDialing])
  | pong =>
    refine .nothing ?_
    simp only [List.mem_singleton, forall_eq]
    split <;> rfl
  | ending _ hending => exact .nothing hending.isOfDialing
  | _ => exact .nothing (by simp [Event.isOfDialing])

theorem Transition.tellsOfDialing (h : Transition c m c' events) : TellsOfDialing c events := by
  cases h.dialMove with
  | reader h => exact h.tellsOfDialing
  | reap =>
    unfold abandoned
    split
    · exact .abandon ‹_›
    · exact .nothing (by simp)
  | elapse n => exact .nothing (by simp)
  | leave h => exact .nothing h.events

theorem EndingStep.of_cancelled_mem (h : EndingStep c t e c' next events)
    (hmem : .cancelled ∈ events) :
    c' = { c with cancelled := true } ∧ next = some .clearing ∧ events = [.cancelled] := by
  cases h with
  | cancel => exact ⟨rfl, rfl, rfl⟩
  | say => split at hmem <;> simp at hmem
  | _ => simp at hmem

/-- A move that cancels the stream tells neither of reading nor of dialing, and leaves a dial that
is under way. -/
structure Cancels (c c' : Connection) (events : List Event) : Prop where
  events : ∀ x ∈ events, x.isOfDialing = false ∧ x.isOfReader = false
  dialing : ∀ since, c.reader.point = .dialing since →
    c'.reader.point = .dialing since ∧ c'.state = c.state

theorem Transition.cancels (h : Transition c m c' events) (hmem : .cancelled ∈ events) :
    Cancels c c' events := by
  have hone : ∀ x ∈ [Event.cancelled], x.isOfDialing = false ∧ x.isOfReader = false := by
    simp [Event.isOfDialing, Event.isOfReader]
  cases h with
  | reader h =>
    cases h with
    | ending hp hending =>
      obtain ⟨rfl, rfl, rfl⟩ := hending.of_cancelled_mem hmem
      refine ⟨hone, fun since hdialing => ?_⟩
      rw [hp] at hdialing
      cases hdialing
    | read f => cases f <;> simp [readFrame] at hmem
    | pong => split at hmem <;> simp at hmem
    | _ => simp at hmem
  | heartbeat h =>
    cases h with
    | ending _ hending =>
      obtain ⟨rfl, rfl, rfl⟩ := hending.of_cancelled_mem hmem
      exact ⟨hone, fun _ hdialing => ⟨hdialing, rfl⟩⟩
    | _ => simp at hmem
  | sending h => cases h <;> simp at hmem
  | closing h =>
    cases h with
    | cancel => exact ⟨hone, fun _ hdialing => ⟨hdialing, rfl⟩⟩
    | ending _ hending =>
      obtain ⟨rfl, -, rfl⟩ := hending.of_cancelled_mem hmem
      exact ⟨hone, fun _ hdialing => ⟨hdialing, rfl⟩⟩
    | ended _ hending =>
      rcases List.mem_append.mp hmem with hmem | hmem
      · cases (hending.of_cancelled_mem hmem).2.1
      · simp at hmem
    | _ => simp at hmem
  | reapReader =>
    unfold abandoned at hmem
    split at hmem <;> simp at hmem
  | dropHandle =>
    obtain ⟨_, _, habort⟩ := abort_frame c.tasks { c with cancelled := true, tasks := [] }
    rw [habort]
    exact ⟨by simp [Event.isOfDialing, Event.isOfReader],
      fun _ hdialing => ⟨hdialing, rfl⟩⟩
  | _ => simp at hmem

/-! ### What holds between moves -/

theorem DialsRightly.of_dialStarted {p : ReaderPoint} {since : Instant}
    (h : DialsRightly schedule c (some (.dialStarted since)) p) : p = .dialing since := by
  cases p with
  | dialing => cases h.1; rfl
  | finished => exact absurd rfl (h since)
  | _ => obtain ⟨_, _, heq, -⟩ := h; cases heq

theorem DialsRightly.ne_dialStarted {last : Option Event} {p : ReaderPoint}
    (h : DialsRightly schedule c last p) (hp : ∀ since, p ≠ .dialing since) (since : Instant) :
    last ≠ some (.dialStarted since) := by
  rintro rfl
  exact hp since h.of_dialStarted

/-- A move that tells nothing of dialing. -/
theorem Paced.silent (hevents : ∀ x ∈ events, x.isOfDialing = false)
    (hdials : DialsRightly schedule c (lastOfDialing? history) c.reader.point)
    (hapart : c.reader.point.isReconnecting = true → c.state ≠ .opened) :
    Paced schedule c (history ++ events) where
  dials := by rw [lastOfDialing?_append_eq hevents]; exact hdials
  apart := hapart

namespace Paced

variable (h : Paced schedule c history)
include h

/-- What a move notes fits the history before it. -/
theorem fits (hnoted : .cancelled ∈ history → c.cancelled = true)
    (htells : TellsOfDialing c events) : ∀ before x after, events = before ++ x :: after →
    Fits schedule c.reconnectDelay c.handshakeTimeout (history ++ before) x := by
  have hdials := h.dials
  cases htells with
  | start hp hcancelled =>
    rw [hp] at hdials
    refine fits_singleton ⟨fun hmem => ?_, hdials⟩
    rw [hnoted hmem] at hcancelled
    cases hcancelled
  | finish succeeded hp =>
    rw [hp] at hdials
    exact fits_singleton ⟨_, hdials⟩
  | abandon hp =>
    rw [hp] at hdials
    exact fits_singleton ⟨_, hdials⟩
  | nothing hnone =>
    intro before x after heq
    exact fits_of_isOfDialing_eq_false (hnone x (heq ▸ List.mem_append_right _ List.mem_cons_self))

theorem of_readerStep (hstep : ReaderStep c c' events) :
    Paced schedule c' (history ++ events) := by
  have hdials := h.dials
  have hapart := h.apart
  cases hstep with
  | read f hp =>
    rw [hp] at hdials
    cases f <;> exact .silent (by simp [readFrame, Event.isOfDialing]) hdials
      Bool.noConfusion
  | @offer v hp =>
    rw [hp] at hdials
    refine .silent (by simp [Event.isOfDialing]) ?_ ?_ <;>
      rw [point_readerAt] <;> cases Subscriptions.gone (c.offerAll v).2
    · exact hdials
    · exact hdials
    · exact Bool.noConfusion
    · exact Bool.noConfusion
  | stop hp | stopResting hp | stopRedialing hp =>
    rw [hp] at hdials
    exact .silent (by simp) (hdials.ne_dialStarted fun _ => ReaderPoint.noConfusion)
      Bool.noConfusion
  | wake hp | fail hp | finish hp | forget hp | skip hp | answer hp | loseForGood hp =>
    rw [hp] at hdials
    exact .silent (by simp [Event.isOfDialing]) hdials Bool.noConfusion
  | pong sig hp =>
    rw [hp] at hdials
    refine .silent ?_ hdials Bool.noConfusion
    simp only [List.mem_singleton, forall_eq]
    split <;> rfl
  | lose hp =>
    rw [hp] at hdials
    exact .silent (by simp [Event.isOfDialing]) hdials fun _ => State.noConfusion
  | retire hp =>
    rw [hp] at hdials hapart
    exact .silent (by simp [Event.isOfDialing]) hdials fun _ => hapart rfl
  | pass hp | discard hp =>
    rw [hp] at hdials hapart
    obtain ⟨ended, succeeded, hlast, hended⟩ := hdials
    exact .silent (by simp) ⟨ended, succeeded, hlast, Nat.add_le_add_right hended _⟩
      fun _ => hapart rfl
  | rest hp _ hdue =>
    rw [hp] at hdials hapart
    obtain ⟨ended, succeeded, hlast, hended⟩ := hdials
    exact .silent (by simp) ⟨ended, succeeded, hlast, Nat.le_trans hended hdue⟩
      fun _ => hapart rfl
  | redial hp =>
    rw [hp] at hapart
    exact ⟨⟨lastOfDialing?_concat rfl, Nat.le_refl _, fun _ => Nat.le_add_right _ _⟩,
      fun _ => hapart rfl⟩
  | abandon hp =>
    refine ⟨fun since heq => ?_, Bool.noConfusion⟩
    rw [lastOfDialing?_concat rfl] at heq
    cases heq
  | dialed hp =>
    rw [hp] at hapart
    exact ⟨⟨c.now, true, lastOfDialing?_concat rfl, Nat.le_refl _⟩, fun _ => hapart rfl⟩
  | dialFailed hp =>
    rw [hp] at hapart
    exact ⟨⟨c.now, false, lastOfDialing?_concat rfl, Nat.le_refl _⟩,
      fun _ => hapart rfl⟩
  | place hp =>
    rw [hp] at hdials hapart
    exact .silent (by simp [Event.isOfDialing]) hdials fun _ => hapart rfl
  | reopen hp =>
    rw [hp] at hdials
    exact .silent (by simp [Event.isOfDialing]) hdials Bool.noConfusion
  | @ending e d next events hp hending =>
    rw [hp] at hdials
    have hevents := hending.isOfDialing
    obtain ⟨_, _, _, _, _, rfl⟩ := hending.frame
    cases next with
    | none =>
      exact .silent hevents
        (hdials.ne_dialStarted fun _ => ReaderPoint.noConfusion) Bool.noConfusion
    | some e' => exact .silent hevents hdials Bool.noConfusion

theorem of_leavesDialing (hleaves : LeavesDialing c c' events) :
    Paced schedule c' (history ++ events) := by
  obtain ⟨hpoint, hnow, hsettings, hstate, hevents⟩ := hleaves
  refine .silent hevents ?_ fun hreconnecting hopened => ?_
  · have hdials := h.dials
    rw [hpoint]
    cases hp : c.reader.point <;> rw [hp] at hdials <;>
      simp only [DialsRightly, handshakeTimeout, reconnectDelay, hnow, hsettings] at hdials ⊢ <;>
      exact hdials
  · rw [hpoint] at hreconnecting
    rcases hstate with hsame | hended
    · exact h.apart hreconnecting (hsame ▸ hopened)
    · rw [hopened] at hended
      cases hended

theorem elapse {n : Nat} (hadmits : c.admits schedule (.elapse n) = true) :
    Paced schedule { c with now := c.now + n } history := by
  have hdials := h.dials
  have hlater : c.now ≤ c.now + n := Nat.le_add_right _ _
  refine ⟨?_, h.apart⟩
  show DialsRightly schedule _ _ c.reader.point
  cases hp : c.reader.point with
  | dialing since =>
    rw [hp] at hdials
    obtain ⟨hlast, hsince, -⟩ := hdials
    refine ⟨hlast, Nat.le_trans hsince hlater, fun hpunctual => ?_⟩
    rw [hpunctual, admits, Bool.and_eq_true, mayElapse] at hadmits
    have hdue : c.now + n ≤ since + c.handshakeTimeout := by
      simpa [deadline?, hp] using List.all_eq_true.mp hadmits.2 .reader List.mem_cons_self
    exact hdue
  | resting | finished => rw [hp] at hdials; exact hdials
  | _ =>
    rw [hp] at hdials
    obtain ⟨ended, succeeded, hlast, hended⟩ := hdials
    exact ⟨ended, succeeded, hlast, Nat.le_trans hended hlater⟩

/-- The reader comes to its end, and gives up a dial that is under way. -/
theorem reap (hfinished : c'.reader.point = .finished) :
    Paced schedule c' (history ++ c.abandoned) := by
  have hdials := h.dials
  have hapart : c'.reader.point.isReconnecting = true → c'.state ≠ .opened := by
    rw [hfinished]
    exact Bool.noConfusion
  cases hp : c.reader.point with
  | dialing since =>
    rw [abandoned, hp]
    refine ⟨?_, hapart⟩
    rw [hfinished, lastOfDialing?_concat rfl]
    exact fun since heq => by cases heq
  | _ =>
    rw [hp] at hdials
    rw [abandoned, hp]
    refine .silent (by simp) ?_ hapart
    rw [hfinished]
    exact hdials.ne_dialStarted fun _ => ReaderPoint.noConfusion

theorem of_transition (hstep : Transition c m c' events) (hadmits : c.admits schedule m = true) :
    Paced schedule c' (history ++ events) := by
  cases hstep.dialMove with
  | reader hreader => exact h.of_readerStep hreader
  | reap hfinished => exact h.reap hfinished
  | elapse n =>
    rw [List.append_nil]
    exact h.elapse hadmits
  | leave hleaves => exact h.of_leavesDialing hleaves

end Paced

/-! ### A stream that is cancelled while it dials -/

theorem Stopped.of_transition (h : Stopped c) (hstep : Transition c m c' events) :
    Stopped c' ∧ ∀ x ∈ events, x.isOfReader = false := by
  obtain ⟨hpoint, hevents⟩ : (c'.reader.point = .finished ∨
      ∃ since, c'.reader.point = .dialing since) ∧ ∀ x ∈ events, x.isOfReader = false := by
    rcases hstep.readerStep_or with hreader | hleaves
    · rcases h.point with hp | ⟨since, hp⟩
      · have hrunning := hreader.hasFinished
        simp [hasFinished, hp] at hrunning
      · cases hreader with
        | abandon => exact ⟨.inl rfl, by simp [Event.isOfReader]⟩
        | dialed _ hnot | dialFailed _ hnot => rw [h.cancelled] at hnot; cases hnot
        | _ => simp_all
    · refine ⟨?_, hleaves.events⟩
      rcases hleaves.point with hsame | ⟨-, hfinished⟩
      · rw [hsame]; exact h.point
      · exact .inl hfinished
  refine ⟨⟨hstep.cancelled_mono h.cancelled, hpoint, fun hopened => ?_⟩, hevents⟩
  rcases stateAfter_eq_or_mem c.state events with hsame | hmem
  · exact h.state (hsame.symm.trans (hstep.notes.state.symm.trans hopened))
  · rw [← hstep.notes.state, hopened] at hmem
    cases hevents _ hmem

/-- A move that cancels the stream while a dial is under way. -/
theorem Paced.stopped (h : Paced schedule c history) (hstep : Transition c m c' events)
    {started : Instant} (hlast : lastOfDialing? history = some (.dialStarted started))
    (hmem : .cancelled ∈ events) : Stopped c' := by
  have hdials := h.dials
  rw [hlast] at hdials
  have hp := hdials.of_dialStarted
  obtain ⟨hdialing, hstate⟩ := (hstep.cancels hmem).dialing started hp
  refine ⟨?_, .inr ⟨started, hdialing⟩, hstate ▸ h.apart (by rw [hp]; rfl)⟩
  rw [hstep.notes.cancelled]
  exact cancelledAfter_of_mem _ hmem

/-! ### Runs -/

theorem paced_opened (schedule : Schedule) (address : String) (settings : StreamSettings)
    (began now : Instant) (epoch : Int) : Paced schedule (opened address settings now epoch)
      ((opened address settings now epoch).opening began) where
  dials := ⟨now, true, rfl, Nat.le_refl now⟩
  apart := Bool.noConfusion

variable {d : Connection} {past : List Event}

theorem Reaches.paced (h : Reaches schedule d past c history) (hd : Paced schedule d past) :
    Paced schedule c history := by
  induction h with
  | refl => exact hd
  | move _ hadmits hnext ih => exact ih.of_transition (.of_next? hnext) hadmits

/-- All that a run notes fits what was there before it. -/
theorem Reaches.fits {start : Connection} (h : Reaches schedule d past c history)
    (hd : Paced schedule d past) (hpast : Notes start d past) :
    ∃ later, history = past ++ later ∧ ∀ before x after, later = before ++ x :: after →
      Fits schedule d.reconnectDelay d.handshakeTimeout (past ++ before) x := by
  induction h with
  | refl => exact ⟨[], by simp, by simp⟩
  | @move c₁ c₂ history events m hbefore hadmits hnext ih =>
    obtain ⟨later, rfl, hlater⟩ := ih
    have hnoted : .cancelled ∈ past ++ later → c₁.cancelled = true := fun hmem => by
      rw [(hbefore.notes hpast).cancelled]
      exact cancelledAfter_of_mem _ hmem
    have hevents := (hbefore.paced hd).fits hnoted (Transition.of_next? hnext).tellsOfDialing
    have hdelay : c₁.reconnectDelay = d.reconnectDelay := by
      rw [reconnectDelay, hbefore.settings_eq, reconnectDelay]
    have hlimit : c₁.handshakeTimeout = d.handshakeTimeout := by
      rw [handshakeTimeout, hbefore.settings_eq, handshakeTimeout]
    rw [hdelay, hlimit] at hevents
    exact ⟨later ++ events, List.append_assoc .., fits_append hlater hevents⟩

theorem Reaches.stops (h : Reaches schedule d past c history) (hd : Paced schedule d past)
    (hpast : .cancelled ∉ past) : ∀ before started after, history = before ++ .cancelled :: after →
      lastOfDialing? before = some (.dialStarted started) →
      Stopped c ∧ ∀ x ∈ after, x.isOfReader = false := by
  induction h with
  | refl =>
    rintro before started after rfl
    exact absurd (List.mem_append_right _ List.mem_cons_self) hpast
  | @move c₁ c₂ history events m hbefore hadmits hnext ih =>
    intro before started after heq hlast
    have hstep := Transition.of_next? hnext
    rcases split_append heq with ⟨rest, rfl, rfl⟩ | ⟨rest, rfl, rfl⟩
    · obtain ⟨hstopped, hrest⟩ := ih before started rest rfl hlast
      obtain ⟨hstopped', hevents⟩ := hstopped.of_transition hstep
      refine ⟨hstopped', fun x hx => ?_⟩
      rcases List.mem_append.mp hx with hx | hx
      · exact hrest x hx
      · exact hevents x hx
    · have hmem : Event.cancelled ∈ rest ++ .cancelled :: after :=
        List.mem_append_right _ List.mem_cons_self
      have hcancels := hstep.cancels hmem
      rw [lastOfDialing?_append_eq fun x hx =>
        (hcancels.events x (List.mem_append_left _ hx)).1] at hlast
      exact ⟨(hbefore.paced hd).stopped hstep hlast hmem, fun x hx =>
        (hcancels.events x (List.mem_append_right _ (List.mem_cons_of_mem _ hx))).2⟩

/-- In every run, whatever the far end does: a dial after the first starts only on a stream that was
not cancelled, when the delay has passed since the end of the dial before it, whether that succeeded
or not; it takes no longer than its limit if no wait is overrun; and one that is under way when the
stream is cancelled leaves it without a new socket, and never open again. -/
theorem Run.redials_paced {address : String} {settings : StreamSettings} {began now : Instant}
    {epoch : Int} (hrun : Run schedule address settings began now epoch c history) :
    let first := (opened address settings now epoch).opening began
    ∃ later, history = first ++ later ∧
      (∀ before t after, later = before ++ .dialStarted t :: after →
        .cancelled ∉ first ++ before ∧ ∃ ended succeeded,
          lastOfDialing? (first ++ before) = some (.dialEnded ended succeeded) ∧
            ended + c.reconnectDelay ≤ t) ∧
      (∀ before x after, later = before ++ x :: after →
        ∀ t, (x = .dialAbandoned t ∨ ∃ succeeded, x = .dialEnded t succeeded) → ∃ started,
          lastOfDialing? (first ++ before) = some (.dialStarted started) ∧ started ≤ t ∧
            (schedule = .punctual → t ≤ started + c.handshakeTimeout)) ∧
      (∀ started, lastOfDialing? history = some (.dialStarted started) →
        started ≤ c.now ∧ (schedule = .punctual → c.now ≤ started + c.handshakeTimeout)) ∧
      ∀ before started after, history = before ++ .cancelled :: after →
        lastOfDialing? before = some (.dialStarted started) →
        c.state ≠ .opened ∧ .entered .opened ∉ after ∧ ∀ s, .installed s ∉ after := by
  intro first
  have hfirst := paced_opened schedule address settings began now epoch
  have hsettings := hrun.2.settings_eq
  have hdelay : (opened address settings now epoch).reconnectDelay = c.reconnectDelay := by
    rw [reconnectDelay, reconnectDelay, hsettings]
  have hlimit : (opened address settings now epoch).handshakeTimeout = c.handshakeTimeout := by
    rw [handshakeTimeout, handshakeTimeout, hsettings]
  obtain ⟨later, hhistory, hfits⟩ :=
    hrun.2.fits hfirst (notes_opening address settings began now epoch)
  rw [hdelay, hlimit] at hfits
  refine ⟨later, hhistory, fun before t after heq => hfits before _ after heq, ?_, ?_, ?_⟩
  · rintro before x after heq t (rfl | ⟨succeeded, rfl⟩)
    · exact hfits before _ after heq
    · exact hfits before _ after heq
  · intro started hlast
    have hdials := (hrun.2.paced hfirst).dials
    rw [hlast] at hdials
    rw [hdials.of_dialStarted] at hdials
    exact hdials.2
  · intro before started after heq hlast
    obtain ⟨hstopped, hafter⟩ := hrun.2.stops hfirst
      (by simp [opening]) before started after heq hlast
    refine ⟨hstopped.state, fun hmem => ?_, fun s hmem => ?_⟩
    · cases hafter _ hmem
    · cases hafter _ hmem

/-- The socket is lost, a dial fails, and a call to close comes during the next one. -/
def closedWhileDialing : List Move :=
  [.step .reader .readFailed, .step .reader .go, .step .reader .go, .step .reader .written,
    .step .reader .suspend, .elapse 5000000000, .step .reader .go, .step .reader .go,
    .step .reader .suspend, .elapse 1000000, .step .reader .dialFailed, .step .reader .suspend,
    .elapse 5000000000, .step .reader .go, .step .reader .go, .step .reader .suspend, .close,
    .step (.close 0) .go, .step (.close 0) .go, .step (.close 0) .go, .step (.close 0) .suspend]

/-- Such dials start five seconds after the end of the dial before, and the stream does not open by
the last one. -/
theorem paced_while_closing : ∃ c history,
    Run .punctual "ws://host/" { pingIntervalMs := 0 } 0 0 0 c history ∧
      history.filter Event.isOfDialing = [.dialStarted 0, .dialEnded 0 true,
        .dialStarted 5000000000, .dialEnded 5001000000 false, .dialStarted 10001000000] ∧
      c.cancelled = true ∧ c.now ≤ 10001000000 + c.handshakeTimeout ∧ c.state ≠ .opened := by
  have hrun : ∃ c history, Run .punctual "ws://host/" { pingIntervalMs := 0 } 0 0 0 c history ∧
      history.filter Event.isOfDialing = [.dialStarted 0, .dialEnded 0 true,
        .dialStarted 5000000000, .dialEnded 5001000000 false, .dialStarted 10001000000] ∧
      c.cancelled = true ∧ history = history.dropLast ++ [.cancelled] ∧
      lastOfDialing? history.dropLast = some (.dialStarted 10001000000) :=
    ⟨_, _, ⟨Nat.le_refl 0, Reaches.of_follow? closedWhileDialing .refl rfl⟩, rfl, rfl, rfl, rfl⟩
  obtain ⟨c, history, hrun, hdials, hcancelled, hsplit, hlast⟩ := hrun
  obtain ⟨-, -, -, -, hunder, hstops⟩ := hrun.redials_paced
  have hnow := (hunder 10001000000 (by rw [lastOfDialing?, hdials]; rfl)).2 rfl
  exact ⟨c, history, hrun, hdials, hcancelled, hnow, (hstops _ _ [] hsplit hlast).1⟩

end Connection

end Uplink.Stream
