import Uplink.Proofs.Stream.Turn

/-! A closed stream stays closed. A reader that comes to put a new write half in place finds the
stream not cancelled, so that every task that ends the stream waits behind it for the turn; and no
stream is closed before the turn of such a task. -/

namespace Uplink.Stream

/-- Whether the reader has a new write half in hand. -/
def ReaderPoint.reopens : ReaderPoint → Bool
  | .placing _ | .opening _ => true
  | _ => false

namespace Connection

/-- Whether a task that ends the stream has cancelled it. -/
def endingFollowsCancel : Ending → Bool
  | .checking | .marking | .cancelling => false
  | _ => true

/-- Whether a task at a point has cancelled the stream. -/
def Standing.followsCancel : Standing → Bool
  | .reader (.ending e) | .heartbeat (.ending e) => endingFollowsCancel e
  | .close (.joining ..) | .close (.ending _) => true
  | _ => false

/-- Whether a task that ends the stream has had the turn. -/
def hasWithdrawn : Ending → Bool
  | .saying .. | .shutting .. | .finishing => true
  | _ => false

/-- What a step of a task other than the reader means for the state, the cancellation and the write
half. -/
inductive LifeStep (c c' : Connection) (t : Task) (s s' : Standing) : Prop where
  | calm : s.ending? = none → s'.ending? = none →
      (s'.followsCancel = true → s.followsCancel = true) → c'.state = c.state →
      c'.cancelled = c.cancelled → c'.sink = c.sink → LifeStep c c' t s s'
  /-- A task begins to end the stream. -/
  | begin : s.ending? = none → s'.ending? = some .checking →
      (s'.followsCancel = true → s.followsCancel = true) → c'.state = c.state →
      c'.cancelled = c.cancelled → c'.sink = c.sink → LifeStep c c' t s s'
  /-- A call to close cancels the stream. -/
  | cancel : s.ending? = none → s'.ending? = none → c'.state = c.state → c'.cancelled = true →
      c'.sink = c.sink → LifeStep c c' t s s'
  | ending {e : Ending} {d : Connection} {next : Option Ending} {events : List Event} :
      s.ending? = some e → EndingStep c t e d next events → s'.ending? = next →
      (s'.followsCancel = true → s.followsCancel = true ∨ next.any endingFollowsCancel = true) →
      c'.state = d.state → c'.cancelled = d.cancelled → c'.sink = d.sink → LifeStep c c' t s s'

/-- What a move means for the state, the cancellation and the write half if it concerns another task
than the reader. -/
inductive LifeMove (c c' : Connection) (t : Task) : Prop where
  | step {s s' : Standing} {parked : Bool} : c.standing? t = some (s, parked) →
      c'.standing? t = some (s', false) → LifeStep c c' t s s' → LifeMove c c' t
  | rest {s : Standing} {parked : Bool} : c.standing? t = some (s, parked) →
      c'.standing? t = some (s, true) → s.mayPark = true → c'.state = c.state →
      c'.cancelled = c.cancelled → c'.sink = c.sink → LifeMove c c' t
  /-- A call is made, or an aborted task ends. -/
  | reset {s : Standing} : c'.standing? t = some (s, false) → s.ending? = none →
      s.followsCancel = false → c'.state = c.state → c'.cancelled = c.cancelled →
      c'.sink = c.sink → LifeMove c c' t

variable {c c' d : Connection} {t u : Task} {m : Move} {n : CallId} {events : List Event}
  {s s' : Standing} {parked : Bool} {e : Ending} {next : Option Ending}

theorem HeartbeatStep.lifeMove (h : HeartbeatStep c c' events) : LifeMove c c' .heartbeat := by
  have hrunning : c'.standing? .heartbeat = some (.heartbeat c'.heartbeat.point, false) := by
    have hparked : c'.heartbeat.parked = false := by cases h <;> rfl
    rw [← hparked]
    rfl
  refine .step rfl hrunning ?_
  cases h with
  | @ending e d next events hp hending =>
    rw [hp]
    refine .ending rfl hending ?_ ?_ rfl rfl rfl
    · cases next <;> rfl
    · cases next with
      | none => exact fun h => .inr h
      | some => exact fun h => .inr h
  | giveUp hp => rw [hp]; exact .begin rfl rfl id rfl rfl rfl
  | stop hp | tick hp | ready hp | skip hp | miss hp | ping hp | pinged hp | pingFailed hp
  | wake hp =>
    rw [hp]
    exact .calm rfl rfl id rfl rfl rfl

theorem LifeMove.sendAt {p p' : SendPoint} (h : c.sendPoint? n = some p) (hd : d.sends = c.sends)
    (hlife : LifeStep c (d.sendAt n p') (.send n) (.send p) (.send p')) :
    LifeMove c (d.sendAt n p') (.send n) := by
  obtain ⟨parked, hs⟩ := standing?_of_sendPoint? h
  have hpoint : d.sendPoint? n = some p := by rw [sendPoint?, hd]; exact h
  exact .step hs (standing?_sendAt_of_sendPoint? hpoint) hlife

theorem LifeMove.closeAt {p p' : ClosePoint} (h : c.closePoint? n = some p)
    (hd : d.closes = c.closes)
    (hlife : LifeStep c (d.closeAt n p') (.close n) (.close p) (.close p')) :
    LifeMove c (d.closeAt n p') (.close n) := by
  obtain ⟨parked, hs⟩ := standing?_of_closePoint? h
  have hpoint : d.closePoint? n = some p := by rw [closePoint?, hd]; exact h
  exact .step hs (standing?_closeAt_of_closePoint? hpoint) hlife

theorem SendStep.lifeMove (h : SendStep c n c' events) : LifeMove c c' (.send n) := by
  cases h with
  | accept hp | refuse hp | miss hp | write hp | sent hp | fail hp =>
    exact .sendAt hp rfl (.calm rfl rfl id rfl rfl rfl)

theorem CloseStep.lifeMove (h : CloseStep c n c' events) : LifeMove c c' (.close n) := by
  cases h with
  | take hp | leave hp | begin hp | join hp => exact .closeAt hp rfl (.calm rfl rfl id rfl rfl rfl)
  | cancel hp => exact .closeAt hp rfl (.cancel rfl rfl rfl rfl rfl)
  | joined hp => exact .closeAt hp rfl (.begin rfl rfl id rfl rfl rfl)
  | @abort t _ _ hp =>
    refine .closeAt hp ?_ (.calm rfl rfl id ?_ ?_ ?_) <;> cases t <;> rfl
  | @ending e e' d events hp hending =>
    have hcloses : d.closes = c.closes := by
      obtain ⟨_, _, _, _, _, rfl⟩ := hending.frame
      rfl
    exact .closeAt hp hcloses (.ending rfl hending rfl (fun _ => .inl rfl) rfl rfl rfl)
  | @ended e d events hp hending =>
    have hcloses : d.closes = c.closes := by
      obtain ⟨_, _, _, _, _, rfl⟩ := hending.frame
      rfl
    exact .closeAt hp hcloses (.ending rfl hending rfl (fun _ => .inl rfl) rfl rfl rfl)

theorem Transition.lifeMove (h : Transition c m c' events) (ht : c.concerned m ≠ .reader) :
    LifeMove c c' (c.concerned m) := by
  cases h with
  | @suspend t hwaits =>
    obtain ⟨s, parked, hs⟩ := exists_standing?_of_waits hwaits
    refine .rest hs ?_ (mayPark_of_waits hwaits hs) ?_ ?_ ?_
    · have hsame : ({ c with turn := if c.awaitsTurn t then c.turn.join t else c.turn }).standing?
          t = c.standing? t := by cases t <;> rfl
      rw [concerned, standing?_park_self, hsame, hs]
      rfl
    · cases t <;> rfl
    · cases t <;> rfl
    · cases t <;> rfl
  | reader => exact absurd rfl ht
  | heartbeat hstep => exact hstep.lifeMove
  | sending hstep => exact hstep.lifeMove
  | closing hstep => exact hstep.lifeMove
  | reapReader => exact absurd rfl ht
  | reapHeartbeat => exact .reset (s := .heartbeat .finished) rfl rfl rfl rfl rfl rfl
  | send message =>
    refine .reset (s := .send (.checking message)) ?_ rfl rfl rfl rfl rfl
    simp [Connection.standing?, concerned]
  | close =>
    refine .reset (s := .close .taking) ?_ rfl rfl rfl rfl rfl
    simp [Connection.standing?, concerned]
  | _ => exact absurd rfl ht

/-! ### What holds while a stream closes -/

/-- What holds between any two moves of a stream that may be closing. -/
structure Closes (c : Connection) : Prop where
  cancelled : ∀ t s parked, c.standing? t = some (s, parked) → s.followsCancel = true →
    c.cancelled = true
  marking : ∀ t s parked, c.standing? t = some (s, parked) → s.ending? = some .marking →
    c.state ≠ .closed
  cancelling : ∀ t s parked, c.standing? t = some (s, parked) → s.ending? = some .cancelling →
    c.state = .closing
  closed : c.state = .closed → c.cancelled = true
  losing : ∀ cause, c.reader.point = .losing cause → c.cancelled = false
  /-- No task that ends the stream has had the turn while the reader has a new write half. -/
  reopening : c.reader.point.reopens = true → c.state ≠ .closed ∧
    ∀ t s parked e, c.standing? t = some (s, parked) → s.ending? = some e → hasWithdrawn e = false
  /-- No task that ends the stream is ahead of a reader that has a new write half. -/
  behind : ∀ socket, c.reader.point = .placing socket → ∀ t ∈ c.turn.ahead .reader,
    ∀ s parked, c.standing? t = some (s, parked) → s.ending? = none

theorem reader_of_standing? (h : c'.standing? .reader = c.standing? .reader) :
    c'.reader.point = c.reader.point ∧ c'.reader.parked = c.reader.parked := by
  simp only [standing?, Option.some.injEq, Prod.mk.injEq, Standing.reader.injEq] at h
  exact h

theorem heartbeat_of_standing? (h : c'.standing? .heartbeat = c.standing? .heartbeat) :
    c'.heartbeat.point = c.heartbeat.point ∧ c'.heartbeat.parked = c.heartbeat.parked := by
  simp only [standing?, Option.some.injEq, Prod.mk.injEq, Standing.heartbeat.injEq] at h
  exact h

theorem Standing.mayPark_of_ending (h : s.ending? = some e) : s.mayPark = mayRestEnding e := by
  unfold ending? at h
  split at h <;> first | (cases h; rfl) | cases h

theorem Standing.followsCancel_of_ending (h : s.ending? = some e)
    (he : endingFollowsCancel e = true) : s.followsCancel = true := by
  unfold ending? at h
  split at h <;> first | (cases h; exact he) | (cases h; rfl) | cases h

theorem endingFollowsCancel_of_mayRest (h : mayRestEnding e = true) :
    endingFollowsCancel e = true := by
  cases e <;> first | rfl | cases h

/-- A task that waits while it ends the stream waits where it may. -/
theorem InTurn.mayRestEnding_of_quiet (h : InTurn c) (hs : c.standing? t = some (s, parked))
    (hquiet : c.isQuiet t = true) (he : s.ending? = some e) : mayRestEnding e = true := by
  rw [← Standing.mayPark_of_ending he]
  exact h.mayPark_of_quiet hquiet hs (Standing.isFinished_of_ending he)

theorem EndingStep.cancelled_mono (h : EndingStep c t e c' next events)
    (hcancelled : c.cancelled = true) : c'.cancelled = true := by
  cases h <;> first | exact hcancelled | rfl

/-- A task that has cancelled the stream goes on with it cancelled. -/
theorem EndingStep.cancelled_of_follows (h : EndingStep c t e c' next events)
    (hfollows : endingFollowsCancel e = true → c.cancelled = true)
    (hnext : next.any endingFollowsCancel = true) : c'.cancelled = true := by
  cases h with
  | cancel => rfl
  | clear | pass | withdraw | say | shut => exact hfollows rfl
  | alreadyClosed | begin | mark | finish => cases hnext

theorem EndingStep.state_of_marking (h : EndingStep c t e c' (some .marking) events) :
    c'.state ≠ .closed := by
  cases h
  assumption

theorem EndingStep.state_of_cancelling (h : EndingStep c t e c' (some .cancelling) events) :
    c'.state = .closing := by
  cases h
  rfl

/-- Whoever comes to close the socket takes the turn, or has had it. -/
theorem EndingStep.mayTake_of_hasWithdrawn {e' : Ending}
    (h : EndingStep c t e c' (some e') events) (he : hasWithdrawn e' = true) :
    hasWithdrawn e = true ∨ c.turn.mayTake t = true := by
  cases h with
  | pass hmay | withdraw hmay => exact .inr hmay
  | say | shut => exact .inl rfl
  | begin | mark | cancel | clear => cases he

theorem EndingStep.closed_or_finishing (h : EndingStep c t e c' next events)
    (hclosed : c'.state = .closed) : c.state = .closed ∨ e = .finishing := by
  cases h with
  | finish => exact .inr rfl
  | mark => cases hclosed
  | _ => exact .inl hclosed

theorem LifeMove.cancelled_mono (h : LifeMove c c' t) (hcancelled : c.cancelled = true) :
    c'.cancelled = true := by
  cases h with
  | step _ _ hstep =>
    cases hstep with
    | calm _ _ _ _ hsame | begin _ _ _ _ hsame => exact hsame.trans hcancelled
    | cancel _ _ _ hnow => exact hnow
    | ending _ hending _ _ _ hsame => exact hsame.trans (hending.cancelled_mono hcancelled)
  | rest _ _ _ _ hsame | reset _ _ _ _ hsame => exact hsame.trans hcancelled

/-- Nothing takes back a cancellation. -/
theorem Transition.cancelled_mono (h : Transition c m c' events) (hcancelled : c.cancelled = true) :
    c'.cancelled = true := by
  cases h with
  | @suspend t => cases t <;> exact hcancelled
  | reader hstep =>
    cases hstep with
    | read f => cases f <;> exact hcancelled
    | ending _ hending => exact hending.cancelled_mono hcancelled
    | _ => exact hcancelled
  | heartbeat hstep => exact hstep.lifeMove.cancelled_mono hcancelled
  | sending hstep => exact hstep.lifeMove.cancelled_mono hcancelled
  | closing hstep => exact hstep.lifeMove.cancelled_mono hcancelled
  | dropHandle =>
    obtain ⟨_, _, heq⟩ := abort_frame c.tasks { c with cancelled := true, tasks := [] }
    rw [heq]
  | _ => exact hcancelled

namespace Closes

variable (h : Closes c)
include h

/-- The others wait, and what is asked of a task that waits outlasts what one task does. -/
theorem step (hturn : InTurn c) (hmove : Concerns c c' t)
    (hmono : c.cancelled = true → c'.cancelled = true)
    (hcancelled : ∀ s parked, c'.standing? t = some (s, parked) → s.followsCancel = true →
      c'.cancelled = true)
    (hmarking : ∀ s parked, c'.standing? t = some (s, parked) → s.ending? = some .marking →
      c'.state ≠ .closed)
    (hcancelling : ∀ s parked, c'.standing? t = some (s, parked) →
      s.ending? = some .cancelling → c'.state = .closing)
    (hclosed : c'.state = .closed → c'.cancelled = true)
    (hlosing : ∀ cause, c'.reader.point = .losing cause → c'.cancelled = false)
    (hreopening : c'.reader.point.reopens = true → c'.state ≠ .closed ∧
      ∀ t s parked e, c'.standing? t = some (s, parked) → s.ending? = some e →
        hasWithdrawn e = false)
    (hbehind : ∀ socket, c'.reader.point = .placing socket → ∀ t ∈ c'.turn.ahead .reader,
      ∀ s parked, c'.standing? t = some (s, parked) → s.ending? = none) : Closes c' := by
  have hnot : ∀ u s parked e, u ≠ t → c'.standing? u = some (s, parked) → s.ending? = some e →
      mayRestEnding e = true := by
    intro u s parked e hu hs he
    rw [hmove.frame u hu] at hs
    exact hturn.mayRestEnding_of_quiet hs (hmove.others u hu) he
  refine ⟨fun u s parked hs hfollows => ?_, fun u s parked hs he => ?_,
    fun u s parked hs he => ?_, hclosed, hlosing, hreopening, hbehind⟩
  · by_cases hu : u = t
    · exact hcancelled s parked (hu ▸ hs) hfollows
    · exact hmono (h.cancelled u s parked (hmove.frame u hu ▸ hs) hfollows)
  · by_cases hu : u = t
    · exact hmarking s parked (hu ▸ hs) he
    · cases hnot u s parked _ hu hs he
  · by_cases hu : u = t
    · exact hcancelling s parked (hu ▸ hs) he
    · cases hnot u s parked _ hu hs he

/-- While the reader waits with a new write half in hand, no task that ends the stream gets the
turn. -/
theorem ending_of_mayTake (hturn : InTurn c) (hreopens : c.reader.point.reopens = true)
    (hquiet : c.isQuiet .reader = true) (hs : c.standing? t = some (s, parked))
    (ht : t ≠ .reader) (hmay : c.turn.mayTake t = true) : s.ending? = none := by
  cases hp : c.reader.point with
  | placing socket =>
    have hmem := hturn.mem_queue_of_quiet hquiet (standing?_reader hp) rfl
    exact h.behind socket hp t (Turn.mem_ahead_of_mayTake hmay hmem ht) s parked hs
  | opening socket => cases hturn.mayPark_of_quiet hquiet (standing?_reader hp) rfl
  | _ => rw [hp] at hreopens; cases hreopens

section

variable (hturn : InTurn c) (hturn' : InTurn c') (hmove : Concerns c c' t) (ht : t ≠ .reader)
  (hlife : LifeMove c c' t)
include hturn hturn' hmove ht hlife

/-- Nobody comes to stand ahead of the reader, and whoever stands there stands where it did. -/
theorem behind_of_lifeMove {socket : SocketId} (hp : c'.reader.point = .placing socket)
    (hu : u ∈ c'.turn.ahead .reader) (hs : c'.standing? u = some (s, parked)) :
    s.ending? = none := by
  have hquiet := hmove.others .reader (Ne.symm ht)
  rw [(reader_of_standing? (hmove.frame .reader (Ne.symm ht))).1] at hp
  have hmem := hturn.mem_queue_of_quiet hquiet (standing?_reader hp) rfl
  have hbefore := (hturn.mem_ahead hmove ht hmem).1 u hu
  by_cases hut : u = t
  · subst hut
    -- Whoever waits is parked, so that the move made it wait where it stood.
    obtain ⟨s₁, hs₁, -⟩ := hturn'.queued u (Turn.mem_queue_of_mem_ahead hu)
    rw [hs] at hs₁
    cases hs₁
    cases hlife with
    | step _ hs' | reset hs' => rw [hs] at hs'; cases hs'
    | rest hwas hs' =>
      rw [hs] at hs'
      cases hs'
      exact h.behind socket hp u hbefore _ _ hwas
  · exact h.behind socket hp u hbefore s parked (hmove.frame u hut ▸ hs)

/-- What is asked of the one task that moves, where it comes to stand. -/
theorem of_standing (hs' : c'.standing? t = some (s', parked))
    (hending : ∀ e, s'.ending? = some e → (e = .marking → c'.state ≠ .closed) ∧
      (e = .cancelling → c'.state = .closing) ∧
      (c.reader.point.reopens = true → hasWithdrawn e = false))
    (hfollows : s'.followsCancel = true → c'.cancelled = true)
    (hclosed : c'.state = .closed → c'.cancelled = true)
    (hreopens : c.reader.point.reopens = true → c'.state ≠ .closed) : Closes c' := by
  have hquiet := hmove.others .reader (Ne.symm ht)
  obtain ⟨hpoint, -⟩ := reader_of_standing? (hmove.frame .reader (Ne.symm ht))
  refine h.step hturn hmove hlife.cancelled_mono (fun s parked hs => ?_)
    (fun s parked hs he => ?_) (fun s parked hs he => ?_) hclosed
    (fun cause hp => absurd (hpoint ▸ hp) (hturn.not_losing_of_quiet hquiet cause))
    (fun hopen => ?_)
    (fun socket hp u hu s parked => h.behind_of_lifeMove hturn hturn' hmove ht hlife hp hu)
  · rw [hs'] at hs; cases hs; exact hfollows
  · rw [hs'] at hs; cases hs; exact (hending _ he).1 rfl
  · rw [hs'] at hs; cases hs; exact (hending _ he).2.1 rfl
  · rw [hpoint] at hopen
    refine ⟨hreopens hopen, fun u s parked e hs he => ?_⟩
    by_cases hu : u = t
    · subst hu
      rw [hs'] at hs
      cases hs
      exact (hending _ he).2.2 hopen
    · exact (h.reopening hopen).2 u s parked e (hmove.frame u hu ▸ hs) he

/-- A task that leaves the state and the cancellation as they are. -/
theorem of_unchanged (hstate : c'.state = c.state) (hcancelled : c'.cancelled = c.cancelled)
    (hs' : c'.standing? t = some (s', parked))
    (hending : ∀ e, s'.ending? = some e → (e = .marking → c.state ≠ .closed) ∧
      (e = .cancelling → c.state = .closing) ∧
      (c.reader.point.reopens = true → hasWithdrawn e = false))
    (hfollows : s'.followsCancel = true → c.cancelled = true) : Closes c' := by
  refine h.of_standing hturn hturn' hmove ht hlife hs' ?_ ?_ ?_ ?_
  · rw [hstate]; exact hending
  · rw [hcancelled]; exact hfollows
  · rw [hstate, hcancelled]; exact h.closed
  · rw [hstate]; exact fun hopen => (h.reopening hopen).1

/-- A task that ends the stream takes a step: it marks the stream before it cancels it, and gets no
turn before a reader that has a new write half in hand. -/
theorem of_endingStep (hs : c.standing? t = some (s, parked))
    (hs' : c'.standing? t = some (s', false)) (he : s.ending? = some e)
    (hending : EndingStep c t e d next events) (hnext : s'.ending? = next)
    (hfollows : s'.followsCancel = true →
      s.followsCancel = true ∨ next.any endingFollowsCancel = true)
    (hstate : c'.state = d.state) (hcancelled : c'.cancelled = d.cancelled) : Closes c' := by
  have hquiet := hmove.others .reader (Ne.symm ht)
  have hbefore : endingFollowsCancel e = true → c.cancelled = true := fun hafter =>
    h.cancelled t s parked hs (Standing.followsCancel_of_ending he hafter)
  refine h.of_standing hturn hturn' hmove ht hlife hs' (fun e' he' => ?_) (fun hafter => ?_)
    (fun hclosed => ?_) (fun hopen hclosed => ?_)
  · rw [show next = some e' from hnext.symm.trans he'] at hending
    refine ⟨fun hm => ?_, fun hc => ?_, fun hopen => ?_⟩
    · subst hm; exact hstate ▸ hending.state_of_marking
    · subst hc; exact hstate.trans hending.state_of_cancelling
    · rw [← Bool.not_eq_true]
      intro hwithdrawn
      rcases hending.mayTake_of_hasWithdrawn hwithdrawn with hbefore | hmay
      · rw [(h.reopening hopen).2 t s parked e hs he] at hbefore
        cases hbefore
      · rw [h.ending_of_mayTake hturn hopen hquiet hs ht hmay] at he
        cases he
  · rw [hcancelled]
    rcases hfollows hafter with hs₁ | hany
    · exact hending.cancelled_mono (h.cancelled t s parked hs hs₁)
    · exact hending.cancelled_of_follows hbefore hany
  · rw [hcancelled]
    rcases hending.closed_or_finishing (hstate ▸ hclosed) with hwas | rfl
    · exact hending.cancelled_mono (h.closed hwas)
    · exact hending.cancelled_mono (hbefore rfl)
  · rcases hending.closed_or_finishing (hstate ▸ hclosed) with hwas | rfl
    · exact (h.reopening hopen).1 hwas
    · cases (h.reopening hopen).2 t s parked _ hs he

/-- What a task other than the reader does keeps it so. -/
theorem of_lifeMove : Closes c' := by
  have hcase := hlife
  cases hcase with
  | step hs hs' hstep =>
    cases hstep with
    | calm _ hnone hfollows hstate hcancelled =>
      refine h.of_unchanged hturn hturn' hmove ht hlife hstate hcancelled hs' (fun e he => ?_)
        fun hnow => ?_
      · cases hnone.symm.trans he
      · exact h.cancelled t _ _ hs (hfollows hnow)
    | begin _ hchecking hfollows hstate hcancelled =>
      refine h.of_unchanged hturn hturn' hmove ht hlife hstate hcancelled hs' (fun e he => ?_)
        fun hnow => ?_
      · cases hchecking.symm.trans he
        exact ⟨Ending.noConfusion, Ending.noConfusion, fun _ => rfl⟩
      · exact h.cancelled t _ _ hs (hfollows hnow)
    | cancel _ hnone hstate hcancelled =>
      refine h.of_standing hturn hturn' hmove ht hlife hs' (fun e he => ?_) (fun _ => hcancelled)
        (fun _ => hcancelled) (fun hopen => ?_)
      · cases hnone.symm.trans he
      · exact hstate ▸ (h.reopening hopen).1
    | ending he hending hnext hfollows hstate hcancelled =>
      exact h.of_endingStep hturn hturn' hmove ht hlife hs hs' he hending hnext hfollows hstate
        hcancelled
  | rest hs hs' _ hstate hcancelled =>
    refine h.of_unchanged hturn hturn' hmove ht hlife hstate hcancelled hs'
      (fun e he => ⟨fun hm => ?_, fun hc => ?_, ?_⟩) (h.cancelled t _ _ hs)
    · exact h.marking t _ _ hs (hm ▸ he)
    · exact h.cancelling t _ _ hs (hc ▸ he)
    · exact fun hopen => (h.reopening hopen).2 t _ _ e hs he
  | reset hs' hnone hfollows hstate hcancelled =>
    refine h.of_unchanged hturn hturn' hmove ht hlife hstate hcancelled hs' (fun e he => ?_)
      fun hnow => ?_
    · cases hnone.symm.trans he
    · cases hfollows.symm.trans hnow

end

/-- The reader comes to a point without a new write half in hand, and the stream is as it was or
live. -/
theorem readerAt {p : ReaderPoint} (hturn : InTurn c) (hmove : Concerns c c' .reader)
    (hpoint : c'.reader.point = p) (hreopens : p.reopens = false)
    (hending : Standing.ending? (.reader p) = none ∨ Standing.ending? (.reader p) = some .checking)
    (hstate : c'.state = c.state ∨ c'.state.isLive = true) (hcancelled : c'.cancelled = c.cancelled)
    (hlosing : ∀ cause, p = .losing cause → c.cancelled = false) : Closes c' := by
  have hs : ∀ s parked, c'.standing? .reader = some (s, parked) → s = .reader p := by
    intro s parked hs
    cases hs
    rw [hpoint]
  have hchecking : ∀ e, Standing.ending? (.reader p) = some e → e = .checking := by
    intro e he
    rcases hending with hnone | hsome
    · cases hnone.symm.trans he
    · exact Option.some.inj (he.symm.trans hsome)
  refine h.step hturn hmove (fun hbefore => hcancelled.trans hbefore) (fun s parked hs' hnow => ?_)
    (fun s parked hs' he => ?_) (fun s parked hs' he => ?_) (fun hclosed => ?_)
    (fun cause hp => hcancelled.trans (hlosing cause (hpoint ▸ hp))) (fun hopen => ?_)
    (fun socket hp => ?_)
  · rw [hs s parked hs'] at hnow
    cases p with
    | ending e => rw [hchecking e rfl] at hnow; cases hnow
    | _ => cases hnow
  · cases hchecking _ (hs s parked hs' ▸ he)
  · cases hchecking _ (hs s parked hs' ▸ he)
  · rcases hstate with hsame | hlive
    · exact hcancelled.trans (h.closed (hsame ▸ hclosed))
    · rw [hclosed] at hlive
      cases hlive
  · rw [hpoint, hreopens] at hopen
    cases hopen
  · rw [← hpoint, hp] at hreopens
    cases hreopens

/-- No task that has cancelled the stream stands anywhere while it is not cancelled. -/
theorem followsCancel_of_not_cancelled (hcancelled : c.cancelled = false)
    (hs : c.standing? t = some (s, parked)) : s.followsCancel = false := by
  rw [← Bool.not_eq_true]
  intro hfollows
  rw [h.cancelled t s parked hs hfollows] at hcancelled
  cases hcancelled

/-- While no task but the reader runs and the stream is not cancelled, no other task ends it. -/
theorem ending_of_not_cancelled (hturn : InTurn c) (hcancelled : c.cancelled = false)
    (hquiet : c.isQuiet t = true) (hs : c.standing? t = some (s, parked)) : s.ending? = none := by
  cases he : s.ending? with
  | none => rfl
  | some e =>
    have hrest := hturn.mayRestEnding_of_quiet hs hquiet he
    have hnot := h.followsCancel_of_not_cancelled hcancelled hs
    rw [Standing.followsCancel_of_ending he (endingFollowsCancel_of_mayRest hrest)] at hnot
    cases hnot

/-- The reader comes to a point with a new write half in hand. -/
theorem reopensAt {p : ReaderPoint} (hturn : InTurn c) (hmove : Concerns c c' .reader)
    (hpoint : c'.reader.point = p) (hreopens : p.reopens = true) (hstate : c'.state = c.state)
    (hcancelled : c'.cancelled = c.cancelled) (hnot : c.state ≠ .closed)
    (hnone : ∀ u s parked e, u ≠ .reader → c.standing? u = some (s, parked) →
      s.ending? = some e → hasWithdrawn e = false)
    (hbehind : ∀ socket, p = .placing socket → ∀ u ∈ c'.turn.ahead .reader,
      ∀ s parked, c.standing? u = some (s, parked) → s.ending? = none) : Closes c' := by
  have hs : ∀ s parked, c'.standing? .reader = some (s, parked) → s = .reader p := by
    intro s parked hs
    cases hs
    rw [hpoint]
  have hending : Standing.ending? (.reader p) = none ∧
      Standing.followsCancel (.reader p) = false ∧ ∀ cause, p ≠ .losing cause := by
    cases p with
    | placing | opening => exact ⟨rfl, rfl, fun _ => ReaderPoint.noConfusion⟩
    | _ => cases hreopens
  obtain ⟨hending, hfollows, hlosing⟩ := hending
  refine h.step hturn hmove (fun hbefore => hcancelled.trans hbefore) (fun s parked hs' hnow => ?_)
    (fun s parked hs' he => ?_) (fun s parked hs' he => ?_)
    (fun hclosed => absurd (hstate ▸ hclosed) hnot)
    (fun cause hp => absurd (hpoint ▸ hp) (hlosing cause))
    (fun _ => ⟨hstate ▸ hnot, fun u s parked e hs' he => ?_⟩)
    (fun socket hp u hu s parked hs' => ?_)
  · cases hfollows.symm.trans (hs s parked hs' ▸ hnow)
  · cases hending.symm.trans (hs s parked hs' ▸ he)
  · cases hending.symm.trans (hs s parked hs' ▸ he)
  · by_cases hu : u = .reader
    · subst hu
      cases hending.symm.trans (hs s parked hs' ▸ he)
    · exact hnone u s parked e hu (hmove.frame u hu ▸ hs') he
  · by_cases hur : u = .reader
    · subst hur
      rw [hs s parked hs']
      exact hending
    · exact hbehind socket (hpoint ▸ hp) u hu s parked (hmove.frame u hur ▸ hs')

/-- A dial has succeeded. The stream is not cancelled, so that no other task ends it yet, and all
that wait for the turn want it for a write. -/
theorem placingAt {socket : SocketId} (hturn : InTurn c) (hmove : Concerns c c' .reader)
    (hpoint : c'.reader.point = .placing socket) (hstate : c'.state = c.state)
    (hsame : c'.cancelled = c.cancelled) (hahead : c'.turn = c.turn)
    (hcancelled : c.cancelled = false)
    (hwaits : Standing.awaitsTurn (.reader c.reader.point) = false) : Closes c' := by
  have hnone : ∀ u s parked, u ≠ .reader → c.standing? u = some (s, parked) → s.ending? = none :=
    fun u s parked hu hs => h.ending_of_not_cancelled hturn hcancelled (hmove.others u hu) hs
  refine h.reopensAt hturn hmove hpoint rfl hstate hsame (fun hclosed => ?_)
    (fun u s parked e hu hs he => ?_) (fun _ _ u hu s parked hs => ?_)
  · rw [h.closed hclosed] at hcancelled
    cases hcancelled
  · cases (hnone u s parked hu hs).symm.trans he
  · by_cases hur : u = .reader
    · subst hur
      rw [hahead] at hu
      have hawaits := (hturn.awaitsTurn_of_mem hs (Turn.mem_queue_of_mem_ahead hu)).1
      cases hs
      cases hwaits.symm.trans hawaits
    · exact hnone u s parked hur hs

/-- The reader takes a step of ending the stream. -/
theorem readerEnds (hturn : InTurn c)
    (hmove : Concerns c (d.readerAt ((next.map .ending).getD .finished)) .reader)
    (hp : c.reader.point = .ending e) (hending : EndingStep c .reader e d next events) :
    Closes (d.readerAt ((next.map .ending).getD .finished)) := by
  have hbefore : endingFollowsCancel e = true → c.cancelled = true :=
    fun hafter => h.cancelled _ _ _ (standing?_reader hp) hafter
  have hnow : ∀ s parked, (d.readerAt ((next.map .ending).getD .finished)).standing? .reader =
      some (s, parked) → s.ending? = next ∧ (s.followsCancel = true →
        next.any endingFollowsCancel = true) := by
    intro s parked hs'
    cases hs'
    cases next <;> exact ⟨rfl, id⟩
  obtain ⟨hlosing, hreopens⟩ : (∀ cause, (next.map ReaderPoint.ending).getD .finished ≠
      .losing cause) ∧ ((next.map ReaderPoint.ending).getD .finished).reopens = false := by
    cases next <;> exact ⟨fun _ => ReaderPoint.noConfusion, rfl⟩
  refine h.step hturn hmove hending.cancelled_mono (fun s parked hs' hfollows => ?_)
    (fun s parked hs' he => ?_) (fun s parked hs' he => ?_) (fun hclosed => ?_)
    (fun cause hp => absurd hp (hlosing cause)) (fun hopen => ?_) (fun socket hplacing => ?_)
  · exact hending.cancelled_of_follows hbefore ((hnow s parked hs').2 hfollows)
  · obtain rfl := (hnow s parked hs').1.symm.trans he
    exact hending.state_of_marking
  · obtain rfl := (hnow s parked hs').1.symm.trans he
    exact hending.state_of_cancelling
  · rcases hending.closed_or_finishing hclosed with hwas | rfl
    · exact hending.cancelled_mono (h.closed hwas)
    · exact hending.cancelled_mono (hbefore rfl)
  · cases hreopens.symm.trans hopen
  · rw [show (next.map ReaderPoint.ending).getD .finished = .placing socket from hplacing]
      at hreopens
    cases hreopens

/-- What the reader does keeps it so. -/
theorem of_readerStep (hturn : InTurn c) (hmove : Concerns c c' .reader)
    (hstep : ReaderStep c c' events) : Closes c' := by
  cases hstep with
  | read f hp hcancelled =>
    cases f <;> exact h.readerAt hturn hmove rfl rfl (.inl rfl) (.inl rfl) rfl fun _ _ => hcancelled
  | wake hp hcancelled | fail hp hcancelled | finish hp hcancelled =>
    exact h.readerAt hturn hmove rfl rfl (.inl rfl) (.inl rfl) rfl fun _ _ => hcancelled
  | @offer v hp =>
    have hpoints : ∀ topics, (afterOffer topics).reopens = false ∧
        Standing.ending? (.reader (afterOffer topics)) = none ∧
        ∀ cause, afterOffer topics ≠ .losing cause := by
      intro topics
      cases topics <;> exact ⟨rfl, rfl, fun _ => ReaderPoint.noConfusion⟩
    obtain ⟨hreopens, hending, hlosing⟩ := hpoints (Subscriptions.gone (c.offerAll v).2)
    exact h.readerAt hturn hmove rfl hreopens (.inl hending) (.inl rfl) rfl
      fun cause hp => absurd hp (hlosing cause)
  | loseForGood =>
    exact h.readerAt hturn hmove rfl rfl (.inr rfl) (.inl rfl) rfl fun _ => ReaderPoint.noConfusion
  | lose | reopen =>
    exact h.readerAt hturn hmove rfl rfl (.inl rfl) (.inr rfl) rfl fun _ => ReaderPoint.noConfusion
  | stop | forget | skip | answer | pong | pass | retire | discard | stopResting | rest
  | stopRedialing | redial | abandon | dialFailed =>
    exact h.readerAt hturn hmove rfl rfl (.inl rfl) (.inl rfl) rfl fun _ => ReaderPoint.noConfusion
  | dialed hp hcancelled =>
    exact h.placingAt hturn hmove rfl rfl rfl rfl hcancelled (by rw [hp]; rfl)
  | place hp =>
    obtain ⟨hnot, hnone⟩ := h.reopening (by rw [hp]; rfl)
    exact h.reopensAt hturn hmove rfl rfl rfl rfl hnot (fun u s parked e _ => hnone u s parked e)
      fun _ => ReaderPoint.noConfusion
  | ending hp hending => exact h.readerEnds hturn hmove hp hending

/-- What happens to no task, but that the reader may come to rest or be ended. -/
theorem calm (hturn : InTurn c) (hmove : Concerns c c' .reader)
    (hpoint : c'.reader.point = c.reader.point ∧
      c'.turn.ahead .reader = c.turn.ahead .reader ∨ c'.reader.point = .finished)
    (hlosing : ∀ cause, c.reader.point ≠ .losing cause) (hstate : c'.state = c.state)
    (hcancelled : c.cancelled = true → c'.cancelled = true) : Closes c' := by
  have hs : ∀ s parked, c'.standing? .reader = some (s, parked) →
      c.standing? .reader = some (s, c.reader.parked) ∨ s = .reader .finished := by
    intro s parked hs
    cases hs
    rcases hpoint with ⟨hsame, -⟩ | hfinished
    · exact .inl (by rw [hsame]; rfl)
    · exact .inr (by rw [hfinished])
  refine h.step hturn hmove hcancelled (fun s parked hs' hnow => ?_) (fun s parked hs' he => ?_)
    (fun s parked hs' he => ?_) (fun hclosed => hcancelled (h.closed (hstate ▸ hclosed)))
    (fun cause hp => ?_) (fun hopen => ?_) (fun socket hp u hu s parked hs' => ?_)
  · rcases hs s parked hs' with hwas | rfl
    · exact hcancelled (h.cancelled _ _ _ hwas hnow)
    · cases hnow
  · rcases hs s parked hs' with hwas | rfl
    · exact hstate ▸ h.marking _ _ _ hwas he
    · cases he
  · rcases hs s parked hs' with hwas | rfl
    · exact hstate.trans (h.cancelling _ _ _ hwas he)
    · cases he
  · rcases hpoint with ⟨hsame, -⟩ | hfinished
    · exact absurd (hsame ▸ hp) (hlosing cause)
    · rw [hfinished] at hp
      cases hp
  · rcases hpoint with ⟨hsame, -⟩ | hfinished
    · obtain ⟨hnot, hnone⟩ := h.reopening (hsame ▸ hopen)
      refine ⟨hstate ▸ hnot, fun u s parked e hs' he => ?_⟩
      by_cases hu : u = .reader
      · subst hu
        rcases hs s parked hs' with hwas | rfl
        · exact hnone _ _ _ e hwas he
        · cases he
      · exact hnone u s parked e (hmove.frame u hu ▸ hs') he
    · rw [hfinished] at hopen
      cases hopen
  · rcases hpoint with ⟨hsame, hahead⟩ | hfinished
    · by_cases hur : u = .reader
      · subst hur
        cases hs'
        rw [hp]
        rfl
      · exact h.behind socket (hsame ▸ hp) u (hahead ▸ hu) s parked (hmove.frame u hur ▸ hs')
    · rw [hfinished] at hp
      cases hp

/-- Every admitted move keeps it so. -/
theorem of_transition (hturn : InTurn c) (hadmits : c.admits .await m = true)
    (hstep : Transition c m c' events) : Closes c' := by
  have hmove := hstep.concerns hadmits
  by_cases ht : c.concerned m = .reader
  · rw [ht] at hmove
    cases hstep with
    | @suspend t hwaits =>
      cases ht
      refine h.calm hturn hmove (.inl ⟨rfl, ?_⟩) (fun cause hp => ?_) rfl id
      · show (if c.awaitsTurn .reader then c.turn.join .reader else c.turn).ahead .reader = _
        split
        · exact Turn.ahead_join_self
        · rfl
      · simp only [waits, hp] at hwaits
        cases hwaits
    | reader hstep => exact h.of_readerStep hturn hmove hstep
    | heartbeat | sending | closing | reapHeartbeat | send | close => cases ht
    | reapReader =>
      exact h.calm hturn hmove (.inr rfl)
        (hturn.not_losing_of_quiet (quiet_of_isSettled hadmits)) rfl id
    | subscribe | refuse | unsubscribe | receive | dropReceiver | elapse =>
      exact h.calm hturn hmove (.inl ⟨rfl, rfl⟩)
        (hturn.not_losing_of_quiet (quiet_of_isSettled hadmits)) rfl id
    | dropHandle =>
      have hquiet := hturn.not_losing_of_quiet (quiet_of_isSettled hadmits)
      obtain ⟨_, _, heq⟩ := abort_frame c.tasks { c with cancelled := true, tasks := [] }
      rw [heq] at hmove ⊢
      exact h.calm hturn hmove (.inl ⟨rfl, rfl⟩) hquiet rfl fun _ => rfl
  · exact h.of_lifeMove hturn (hturn.step hmove) hmove ht (hstep.lifeMove ht)

/-- No move opens a closed stream, or lets it begin to close again. -/
theorem closed_of_transition (hstep : Transition c m c' events) (hclosed : c.state = .closed) :
    c'.state = .closed := by
  have hending : ∀ {t s parked e d next events}, c.standing? t = some (s, parked) →
      s.ending? = some e → EndingStep c t e d next events → d.state = .closed := by
    intro t s parked e d next events hs he hending
    cases hending with
    | mark => exact absurd hclosed (h.marking t s parked hs he)
    | finish => rfl
    | _ => exact hclosed
  cases hstep with
  | @suspend t => cases t <;> exact hclosed
  | reader hstep =>
    cases hstep with
    | read f => cases f <;> exact hclosed
    | lose hp =>
      have hcancelled := h.losing _ hp
      rw [h.closed hclosed] at hcancelled
      cases hcancelled
    | reopen hp => exact absurd hclosed (h.reopening (by rw [hp]; rfl)).1
    | ending hp hstep =>
      exact (hending (standing?_reader hp) rfl hstep :)
    | _ => exact hclosed
  | heartbeat hstep =>
    cases hstep with
    | ending hp hstep =>
      exact (hending (standing?_heartbeat hp) rfl hstep :)
    | _ => exact hclosed
  | sending hstep => cases hstep <;> exact hclosed
  | closing hstep =>
    cases hstep with
    | @abort t => cases t <;> exact hclosed
    | ending hp hstep | ended hp hstep =>
      obtain ⟨parked, hs⟩ := standing?_of_closePoint? hp
      exact (hending hs rfl hstep :)
    | _ => exact hclosed
  | dropHandle =>
    obtain ⟨_, _, heq⟩ := abort_frame c.tasks { c with cancelled := true, tasks := [] }
    rw [heq]
    exact hclosed
  | _ => exact hclosed

end Closes

theorem closes_opened (address : String) (settings : StreamSettings) (now : Instant)
    (epoch : Int) : Closes (opened address settings now epoch) := by
  have hstanding : ∀ t s parked,
      (opened address settings now epoch).standing? t = some (s, parked) →
      s.followsCancel = false ∧ s.ending? = none := by
    intro t s parked hs
    cases t with
    | reader => cases hs; exact ⟨rfl, rfl⟩
    | heartbeat =>
      cases hs
      unfold opened
      cases settings.pingInterval? <;> exact ⟨rfl, rfl⟩
    | send | close => cases hs
  refine ⟨fun t s parked hs hfollows => ?_, fun t s parked hs he => ?_,
    fun t s parked hs he => ?_, State.noConfusion, fun _ => ReaderPoint.noConfusion,
    Bool.noConfusion, fun _ => ReaderPoint.noConfusion⟩
  · rw [(hstanding t s parked hs).1] at hfollows
    cases hfollows
  · rw [(hstanding t s parked hs).2] at he
    cases he
  · rw [(hstanding t s parked hs).2] at he
    cases he

/-- What holds while a stream closes holds in every run. -/
theorem Reaches.closes {d : Connection} {past history : List Event}
    (h : Reaches .await d past c history) (hturn : InTurn d) (hd : Closes d) : Closes c := by
  induction h with
  | refl => exact hd
  | move hbefore hadmits hnext ih =>
    exact ih.of_transition (hbefore.inTurn hturn) hadmits (.of_next? hnext)

theorem Reaches.closed {past history : List Event} (h : Reaches .await c past c' history)
    (hturn : InTurn c) (hcloses : Closes c) (hclosed : c.state = .closed) : c'.state = .closed := by
  induction h with
  | refl => exact hclosed
  | move hbefore _ hnext ih =>
    exact (hbefore.closes hturn hcloses).closed_of_transition (.of_next? hnext) ih

/-- In every run, a closed stream stays closed. -/
theorem Run.closed {address : String} {settings : StreamSettings} {began now : Instant}
    {epoch : Int} {history after : List Event}
    (hrun : Run .await address settings began now epoch c history) (hclosed : c.state = .closed)
    (h : Reaches .await c history c' after) : c'.state = .closed :=
  h.closed (hrun.2.inTurn (inTurn_opened address settings now epoch))
    (hrun.2.closes (inTurn_opened address settings now epoch)
      (closes_opened address settings now epoch)) hclosed

end Connection

end Uplink.Stream
