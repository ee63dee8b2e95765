import Uplink.Proofs.Stream.Await
import Uplink.Proofs.Stream.Subscription

/-! The life of a stream whose tasks are interleaved at their waits. As long as the reader never has
to wait for the turn to put a new write half in place, a stream that closes never opens again, and a
closed stream has no write half and no topic. A reader that does have to wait there may open a
stream that is closing. -/

namespace Uplink.Stream

/-- The states that a stream may come to from a state. -/
def State.mayBecome : State → State → Bool
  | .connecting, .opened | .opened, .reconnecting | .reconnecting, .opened | .opened, .closing
  | .reconnecting, .closing | .closing, .closed => true
  | _, _ => false

theorem State.mayBecome_connecting (s : State) : s.mayBecome .connecting = false := by
  cases s <;> rfl

/-- Where there is no topic, none is forgotten. -/
theorem Subscriptions.forgetAll_of_empty {s : Subscriptions} (topics : List String)
    (h : s.topics = ∅) : s.forgetAll topics = s := by
  induction topics with
  | nil => rfl
  | cons topic rest ih =>
    have hforget : s.forget topic = s := by
      unfold forget
      rw [h]
      rfl
    rw [forgetAll, List.foldl_cons, hforget]
    exact ih

namespace Connection

/-- Where a task may wait. A reader that waits to put a write half in place is not meant here. -/
def Standing.mayRest : Standing → Bool
  | .reader (.ending e) | .heartbeat (.ending e) | .close (.ending e) => mayRestEnding e
  | .reader (.offering _) | .reader (.forgetting _) | .reader (.losing _) | .reader .redialing
  | .reader (.placing _) | .reader (.opening _) => false
  | _ => true

/-- What holds while a task is at a point of ending the stream. -/
def EndsRightly (c : Connection) : Ending → Prop
  | .checking => True
  | .marking => c.state ≠ .closed
  | .cancelling => c.state = .closing
  | .clearing => c.state.isLive = false ∧ c.cancelled = true
  | .waiting => (c.state.isLive = false ∧ c.cancelled = true) ∧ c.subscriptions.topics = ∅
  | .saying .. | .shutting .. | .finishing =>
    (c.state.isLive = false ∧ c.cancelled = true) ∧ c.subscriptions.topics = ∅ ∧ c.sink = none

/-- What holds while the reader is at a point. -/
def ReadsRightly (c : Connection) : ReaderPoint → Prop
  | .selecting | .offering _ | .forgetting _ | .answering _ | .ponging .. => c.state ≠ .reconnecting
  | .losing _ => c.state = .opened
  | .retiring | .discarding .. | .resting _ | .redialing | .dialing _ => c.state ≠ .opened
  | .placing _ => c.state = .reconnecting ∧ c.cancelled = false
  | .opening s => c.state = .reconnecting ∧ c.cancelled = false ∧ c.sink = some s
  | .ending _ | .finished => True

/-- A stream that closes goes on to close, and gets neither a topic nor a write half again. -/
structure KeepsClosing (c c' : Connection) : Prop where
  ended : c'.state.isLive = false
  cancelled : c'.cancelled = true
  topics : c.subscriptions.topics = ∅ → c'.subscriptions.topics = ∅
  sink : c.sink = none → c'.sink = none

/-- What holds of a stream between any two moves. -/
structure Sound (c : Connection) : Prop where
  rests : ∀ t s, c.standing? t = some (s, true) → s.mayRest = true
  ends : ∀ t s parked e, c.standing? t = some (s, parked) → s.ending? = some e → c.EndsRightly e
  reads : c.ReadsRightly c.reader.point
  connected : c.state ≠ .connecting
  cancelled : c.state.isLive = false → c.cancelled = true ∨
    ∃ t s parked, c.standing? t = some (s, parked) ∧ s.ending? = some .cancelling
  closed : c.state = .closed → c.sink = none ∧ c.subscriptions.topics = ∅ ∧ c.cancelled = true
  opened : c.state = .opened → c.sink ≠ none

variable {c c' : Connection} {t u : Task} {m : Move} {sig : Signal} {events : List Event}
  {s : Standing} {parked : Bool} {e : Ending} {next : Option Ending} {f : Inbound}

theorem Standing.mayRest_of_ending (h : s.ending? = some e) : s.mayRest = mayRestEnding e := by
  unfold ending? at h
  split at h
  · cases h; rfl
  · cases h; rfl
  · cases h; rfl
  · cases h

theorem EndsRightly.keeps (h : c.EndsRightly e) (he : mayRestEnding e = true)
    (hkeeps : c.state.isLive = false → c.cancelled = true → KeepsClosing c c') :
    c'.EndsRightly e := by
  cases e with
  | waiting =>
    obtain ⟨⟨hended, hcancelled⟩, htopics⟩ := h
    have hnow := hkeeps hended hcancelled
    exact ⟨⟨hnow.ended, hnow.cancelled⟩, hnow.topics htopics⟩
  | saying | shutting =>
    obtain ⟨⟨hended, hcancelled⟩, htopics, hsink⟩ := h
    have hnow := hkeeps hended hcancelled
    exact ⟨⟨hnow.ended, hnow.cancelled⟩, hnow.topics htopics, hnow.sink hsink⟩
  | _ => cases he

theorem EndsRightly.of_same (h : c.EndsRightly e) (hstate : c'.state = c.state)
    (hcancelled : c.cancelled = true → c'.cancelled = true)
    (htopics : c.state.isLive = false → c.subscriptions.topics = ∅ → c'.subscriptions.topics = ∅)
    (hsink : c'.sink = c.sink) : c'.EndsRightly e := by
  cases e with
  | checking => trivial
  | marking | cancelling => unfold EndsRightly at h ⊢; rw [hstate]; exact h
  | clearing => exact ⟨hstate ▸ h.1, hcancelled h.2⟩
  | waiting => exact ⟨⟨hstate ▸ h.1.1, hcancelled h.1.2⟩, htopics h.1.1 h.2⟩
  | saying | shutting | finishing =>
    exact ⟨⟨hstate ▸ h.1.1, hcancelled h.1.2⟩, htopics h.1.1 h.2.1, hsink ▸ h.2.2⟩

/-- A reader that waits is where it should be whatever others do to the state. -/
theorem ReadsRightly.keeps {p : ReaderPoint} (h : c.ReadsRightly p)
    (hquiet : Standing.isFinished (.reader p) = true ∨ Standing.mayRest (.reader p) = true)
    (hstate : c'.state = c.state ∨ c'.state.isLive = false) : c'.ReadsRightly p := by
  have hnot : ∀ x : State, x.isLive = true → c.state ≠ x → c'.state ≠ x := by
    intro x hx hne heq
    rcases hstate with hstate | hstate
    · exact hne (hstate ▸ heq)
    · rw [heq, hx] at hstate
      cases hstate
  cases p with
  | selecting | answering | ponging => exact hnot _ rfl h
  | retiring | discarding | resting | dialing => exact hnot _ rfl h
  | ending | finished => trivial
  | offering | forgetting | losing | redialing | placing | opening =>
    rcases hquiet with hquiet | hquiet <;> cases hquiet

namespace Sound

variable (h : Sound c)
include h

/-- A task that waits while it ends the stream waits where it may. -/
theorem mayRestEnding_of_quiet (hstanding : c.standing? t = some (s, parked))
    (hquiet : c.isQuiet t = true) (he : s.ending? = some e) : mayRestEnding e = true := by
  rw [isQuiet_of_standing? hstanding, Standing.isFinished_of_ending he, Bool.false_or] at hquiet
  rw [← Standing.mayRest_of_ending he]
  exact h.rests t s (hquiet ▸ hstanding)

theorem reader_rests (hquiet : c.isQuiet .reader = true) :
    Standing.isFinished (.reader c.reader.point) = true ∨
      Standing.mayRest (.reader c.reader.point) = true := by
  have hstanding : c.standing? .reader = some (.reader c.reader.point, c.reader.parked) := rfl
  rw [isQuiet_of_standing? hstanding, Bool.or_eq_true] at hquiet
  rcases hquiet with hquiet | hquiet
  · exact .inl hquiet
  · exact .inr (h.rests .reader _ (hquiet ▸ hstanding))

/-- While all others wait, a stream that closes is cancelled, unless the task itself is about to. -/
theorem cancelled_of_quiet (hothers : ∀ u, u ≠ t → c.isQuiet u = true)
    (hended : c.state.isLive = false) : c.cancelled = true ∨
      ∃ s parked, c.standing? t = some (s, parked) ∧ s.ending? = some .cancelling := by
  rcases h.cancelled hended with hcancelled | ⟨u, s, parked, hstanding, he⟩
  · exact .inl hcancelled
  · by_cases hu : u = t
    · exact .inr ⟨s, parked, hu ▸ hstanding, he⟩
    · have hrest := h.mayRestEnding_of_quiet hstanding (hothers u hu) he
      cases hrest

/-- A step of a task, or what else leaves all other tasks where they wait. -/
theorem step (hothers : ∀ u, u ≠ t → c.isQuiet u = true)
    (hframe : ∀ u, u ≠ t → c'.standing? u = c.standing? u)
    (hkeeps : c.state.isLive = false → c.cancelled = true → KeepsClosing c c')
    (hrests : ∀ s, c'.standing? t = some (s, true) → s.mayRest = true)
    (hends : ∀ s parked e, c'.standing? t = some (s, parked) → s.ending? = some e →
      c'.EndsRightly e)
    (hreads : c'.ReadsRightly c'.reader.point) (hconnected : c'.state ≠ .connecting)
    (hcancelled : c'.state.isLive = false → c'.cancelled = true ∨
      ∃ s parked, c'.standing? t = some (s, parked) ∧ s.ending? = some .cancelling)
    (hclosed : c'.state = .closed →
      c'.sink = none ∧ c'.subscriptions.topics = ∅ ∧ c'.cancelled = true)
    (hopened : c'.state = .opened → c'.sink ≠ none) : Sound c' := by
  -- The other tasks wait, and what is asked of a task that waits outlasts all that others do.
  refine ⟨fun u s hu => ?_, fun u s parked e hu he => ?_, hreads, hconnected, fun hended => ?_,
    hclosed, hopened⟩
  · by_cases hut : u = t
    · exact hrests s (hut ▸ hu)
    · exact h.rests u s (hframe u hut ▸ hu)
  · by_cases hut : u = t
    · exact hends s parked e (hut ▸ hu) he
    · rw [hframe u hut] at hu
      have hrest := h.mayRestEnding_of_quiet hu (hothers u hut) he
      exact (h.ends u s parked e hu he).keeps hrest hkeeps
  · rcases hcancelled hended with hcancelled | ⟨s, parked, hstanding, he⟩
    · exact .inl hcancelled
    · exact .inr ⟨t, s, parked, hstanding, he⟩

/-- While all others wait, a stream that is not cancelled is live, unless the task is about to
cancel it. -/
theorem live_of_not_cancelled (hothers : ∀ u, u ≠ t → c.isQuiet u = true)
    (hnot : ∀ s parked, c.standing? t = some (s, parked) → s.ending? ≠ some .cancelling)
    (hcancelled : c.cancelled = false) : c.state = .opened ∨ c.state = .reconnecting := by
  have hlive : c.state.isLive = true := by
    rw [← Bool.not_eq_false]
    intro hended
    rcases h.cancelled_of_quiet hothers hended with hbefore | ⟨s, parked, hs, he⟩
    · rw [hcancelled] at hbefore
      cases hbefore
    · exact hnot s parked hs he
  have hconnected := h.connected
  cases hstate : c.state with
  | opened => exact .inl rfl
  | reconnecting => exact .inr rfl
  | connecting => exact absurd hstate hconnected
  | closing | closed => rw [hstate] at hlive; cases hlive

/-- Whatever another task does to the state, a reader that waits is where it should be. -/
theorem reads_of_ne_reader (hothers : ∀ u, u ≠ t → c.isQuiet u = true)
    (hframe : ∀ u, u ≠ t → c'.standing? u = c.standing? u) (ht : t ≠ .reader)
    (hstate : c'.state = c.state ∨ c'.state.isLive = false) :
    c'.ReadsRightly c'.reader.point := by
  have hpoint : c'.reader.point = c.reader.point := by
    have hreader := hframe .reader (Ne.symm ht)
    simp only [standing?, Option.some.injEq, Prod.mk.injEq, Standing.reader.injEq] at hreader
    exact hreader.1
  rw [hpoint]
  exact h.reads.keeps (h.reader_rests (hothers .reader (Ne.symm ht))) hstate

/-- What changes neither the state nor the write half, and leaves every task where it is or takes it
where it does not end the stream. -/
theorem same (hothers : ∀ u, u ≠ t → c.isQuiet u = true)
    (hframe : ∀ u, u ≠ t → c'.standing? u = c.standing? u)
    (hwas : ∀ s parked, c.standing? t = some (s, parked) → s.ending? ≠ some .cancelling)
    (hnow : ∀ s parked, c'.standing? t = some (s, parked) → c.standing? t = some (s, parked) ∨
      parked = false ∧ (s.ending? = none ∨ s.ending? = some .checking))
    (hstate : c'.state = c.state) (hcancelled : c.cancelled = true → c'.cancelled = true)
    (htopics : c.state.isLive = false → c.subscriptions.topics = ∅ → c'.subscriptions.topics = ∅)
    (hsink : c'.sink = c.sink) (hreads : c'.ReadsRightly c'.reader.point) : Sound c' := by
  have hkeep : c.state.isLive = false → c.cancelled = true → KeepsClosing c c' :=
    fun hended hbefore =>
      ⟨hstate ▸ hended, hcancelled hbefore, htopics hended, fun hnone => hsink ▸ hnone⟩
  refine h.step hothers hframe hkeep (fun s hs => ?_) (fun s parked e hs he => ?_) hreads
    (hstate ▸ h.connected) (fun hended => ?_) (fun hclosed => ?_)
    (fun hopened => hsink ▸ h.opened (hstate ▸ hopened))
  · rcases hnow s true hs with hbefore | ⟨hparked, -⟩
    · exact h.rests t s hbefore
    · cases hparked
  · rcases hnow s parked hs with hbefore | ⟨-, hnone | hchecking⟩
    · exact (h.ends t s parked e hbefore he).of_same hstate hcancelled htopics hsink
    · rw [hnone] at he; cases he
    · rw [hchecking] at he; cases he; trivial
  · rcases h.cancelled_of_quiet hothers (hstate ▸ hended) with hbefore | ⟨s, parked, hs, he⟩
    · exact .inl (hcancelled hbefore)
    · exact absurd he (hwas s parked hs)
  · obtain ⟨hnone, hempty, hbefore⟩ := h.closed (hstate ▸ hclosed)
    exact ⟨hsink ▸ hnone, htopics (by rw [← hstate, hclosed]; rfl) hempty, hcancelled hbefore⟩

/-- What a task other than the reader does without changing the state or the write half. -/
theorem same_of_ne_reader (hothers : ∀ u, u ≠ t → c.isQuiet u = true)
    (hframe : ∀ u, u ≠ t → c'.standing? u = c.standing? u) (ht : t ≠ .reader)
    (hwas : ∀ s parked, c.standing? t = some (s, parked) → s.ending? = none)
    (hnow : ∀ s parked, c'.standing? t = some (s, parked) →
      parked = false ∧ (s.ending? = none ∨ s.ending? = some .checking))
    (hstate : c'.state = c.state) (hcancelled : c.cancelled = true → c'.cancelled = true)
    (htopics : c'.subscriptions = c.subscriptions) (hsink : c'.sink = c.sink) : Sound c' := by
  refine h.same hothers hframe (fun s parked hs => ?_) (fun s parked hs => .inr (hnow s parked hs))
    hstate hcancelled (fun _ hempty => htopics ▸ hempty) hsink
    (h.reads_of_ne_reader hothers hframe ht (.inl hstate))
  simp [hwas s parked hs]

/-- What the reader does without changing the state or the write half, and without ending the
stream. -/
theorem readerAt {d : Connection} {p : ReaderPoint}
    (hothers : ∀ u, u ≠ .reader → c.isQuiet u = true)
    (hframe : ∀ u, u ≠ .reader → (d.readerAt p).standing? u = c.standing? u)
    (hwas : Standing.ending? (.reader c.reader.point) = none)
    (hp : Standing.ending? (.reader p) = none ∨ Standing.ending? (.reader p) = some .checking)
    (hstate : d.state = c.state) (hcancelled : d.cancelled = c.cancelled)
    (htopics : c.subscriptions.topics = ∅ → d.subscriptions.topics = ∅) (hsink : d.sink = c.sink)
    (hreads : (d.readerAt p).ReadsRightly p) : Sound (d.readerAt p) := by
  refine h.same hothers hframe (fun s parked hs => ?_) (fun s parked hs => ?_) hstate
    (fun hbefore => hcancelled.trans hbefore) (fun _ => htopics) hsink hreads
  · cases hs
    simp [hwas]
  · cases hs
    exact .inr ⟨rfl, hp⟩

end Sound

/-! ### Steps of ending the stream -/

theorem EndingStep.state_mayBecome (h : EndingStep c t e c' next events) (hsound : Sound c)
    (he : c.EndsRightly e) : c'.state = c.state ∨ c.state.mayBecome c'.state = true := by
  cases h with
  | mark =>
    have hnot : c.state ≠ .closed := he
    have hconnected := hsound.connected
    cases hstate : c.state with
    | connecting | closed => contradiction
    | opened | reconnecting => exact .inr rfl
    | closing => exact .inl rfl
  | finish =>
    have hended : c.state.isLive = false := he.1.1
    cases hstate : c.state with
    | closing => exact .inr rfl
    | closed => exact .inl rfl
    | _ => rw [hstate] at hended; cases hended
  | _ => exact .inl rfl

theorem EndingStep.state_eq_or_ended (h : EndingStep c t e c' next events) :
    c'.state = c.state ∨ c'.state.isLive = false := by
  cases h with
  | mark | finish => exact .inr rfl
  | _ => exact .inl rfl

theorem EndingStep.keepsClosing (h : EndingStep c t e c' next events)
    (hended : c.state.isLive = false) (hcancelled : c.cancelled = true) : KeepsClosing c c' := by
  cases h with
  | mark | finish => exact ⟨rfl, hcancelled, id, id⟩
  | cancel => exact ⟨hended, rfl, id, id⟩
  | clear => exact ⟨hended, hcancelled, fun _ => rfl, id⟩
  | withdraw => exact ⟨hended, hcancelled, id, fun _ => rfl⟩
  | _ => exact ⟨hended, hcancelled, id, id⟩

/-- Ending a stream goes on rightly. -/
theorem EndingStep.endsRightly (h : EndingStep c t e c' next events) (he : c.EndsRightly e)
    {e' : Ending} (hnext : next = some e') : c'.EndsRightly e' := by
  cases h with
  | alreadyClosed | finish => cases hnext
  | begin hnot => cases hnext; exact hnot
  | mark => cases hnext; rfl
  | cancel =>
    cases hnext
    have hclosing : c.state = .closing := he
    exact ⟨congrArg State.isLive hclosing, rfl⟩
  | clear => cases hnext; exact ⟨he, rfl⟩
  | pass _ hsink => cases hnext; exact ⟨he.1, he.2, hsink⟩
  | withdraw => cases hnext; exact ⟨he.1, he.2, rfl⟩
  | say => cases hnext; exact he
  | shut => cases hnext; exact he

theorem EndingStep.cancelled_or_cancelling (h : EndingStep c t e c' next events)
    (he : c.EndsRightly e)
    (hbefore : c.state.isLive = false → c.cancelled = true ∨ e = .cancelling)
    (hended : c'.state.isLive = false) : c'.cancelled = true ∨ next = some .cancelling := by
  cases h with
  | mark => exact .inr rfl
  | cancel => exact .inl rfl
  | finish => exact .inl he.1.2
  | _ => exact .inl ((hbefore hended).resolve_right (by simp))

theorem EndingStep.closed (h : EndingStep c t e c' next events) (he : c.EndsRightly e)
    (hbefore : c.state = .closed →
      c.sink = none ∧ c.subscriptions.topics = ∅ ∧ c.cancelled = true)
    (hclosed : c'.state = .closed) :
    c'.sink = none ∧ c'.subscriptions.topics = ∅ ∧ c'.cancelled = true := by
  cases h with
  | mark => cases hclosed
  | cancel => exact ⟨(hbefore hclosed).1, (hbefore hclosed).2.1, rfl⟩
  | clear => exact ⟨(hbefore hclosed).1, rfl, (hbefore hclosed).2.2⟩
  | withdraw => exact ⟨rfl, (hbefore hclosed).2⟩
  | finish => exact ⟨he.2.2, he.2.1, he.1.2⟩
  | _ => exact hbefore hclosed

theorem EndingStep.opened (h : EndingStep c t e c' next events) (he : c.EndsRightly e)
    (hbefore : c.state = .opened → c.sink ≠ none) (hopened : c'.state = .opened) :
    c'.sink ≠ none := by
  cases h with
  | mark | finish => cases hopened
  | withdraw =>
    have hended : c.state.isLive = false := he.1.1
    rw [show c.state = .opened from hopened] at hended
    cases hended
  | _ => exact hbefore hopened

/-- A task that ends the stream goes on to the next point, or to its end. -/
theorem Sound.of_endingStep {d : Connection} {s' : Standing} (h : Sound c)
    (hothers : ∀ u, u ≠ t → c.isQuiet u = true)
    (hframe : ∀ u, u ≠ t → c'.standing? u = c.standing? u)
    (hwas : c.standing? t = some (s, parked)) (hs : s.ending? = some e)
    (hstep : EndingStep c t e d next events) (hnow : c'.standing? t = some (s', false))
    (hs' : s'.ending? = next) (hstate : c'.state = d.state)
    (hcancelled : c'.cancelled = d.cancelled)
    (htopics : c'.subscriptions = d.subscriptions) (hsink : c'.sink = d.sink)
    (hreads : c'.ReadsRightly c'.reader.point) : Sound c' := by
  have he : c.EndsRightly e := h.ends t s parked e hwas hs
  refine h.step hothers hframe (fun hended hbefore => ?_) (fun s hrest => ?_)
    (fun s parked e' hstanding hending => ?_) hreads (fun hconnecting => ?_) (fun hended => ?_)
    (fun hclosed => ?_) (fun hopened => ?_)
  · obtain ⟨hended, hafter, hempty, hnone⟩ := hstep.keepsClosing hended hbefore
    exact ⟨hstate ▸ hended, hcancelled ▸ hafter, htopics ▸ hempty, hsink ▸ hnone⟩
  · rw [hnow] at hrest
    cases hrest
  · rw [hnow] at hstanding
    cases hstanding
    exact (hstep.endsRightly he (hs' ▸ hending)).of_same hstate
      (fun hafter => hcancelled.trans hafter) (fun _ hempty => htopics ▸ hempty) hsink
  · rw [hstate] at hconnecting
    rcases hstep.state_mayBecome h he with hsame | hbecome
    · exact h.connected (hsame ▸ hconnecting)
    · rw [hconnecting, State.mayBecome_connecting] at hbecome
      cases hbecome
  · rw [hstate] at hended
    have hbefore : c.state.isLive = false → c.cancelled = true ∨ e = .cancelling := by
      intro hended
      rcases h.cancelled_of_quiet hothers hended with hbefore | ⟨s₁, parked₁, hs₁, he₁⟩
      · exact .inl hbefore
      · rw [hwas] at hs₁
        cases hs₁
        exact .inr (Option.some.inj (hs.symm.trans he₁))
    rcases hstep.cancelled_or_cancelling he hbefore hended with hafter | hcancelling
    · exact .inl (hcancelled.trans hafter)
    · exact .inr ⟨s', false, hnow, hs'.trans hcancelling⟩
  · rw [hstate] at hclosed
    rw [hsink, htopics, hcancelled]
    exact hstep.closed he h.closed hclosed
  · rw [hstate] at hopened
    rw [hsink]
    exact hstep.opened he h.opened hopened

/-! ### Steps of the tasks -/

/-- A frame read while the stream is open. -/
theorem Sound.readFrame (h : Sound c) (hothers : ∀ u, u ≠ .reader → c.isQuiet u = true)
    (hframe : ∀ u, u ≠ .reader → (c.readFrame f).1.standing? u = c.standing? u)
    (hwas : Standing.ending? (.reader c.reader.point) = none) (hopened : c.state = .opened) :
    Sound (c.readFrame f).1 := by
  have hnot : c.state ≠ .reconnecting := by rw [hopened]; exact State.noConfusion
  cases f with
  | data => exact h.readerAt hothers hframe hwas (.inl rfl) rfl rfl id rfl hnot
  | ping => exact h.readerAt hothers hframe hwas (.inl rfl) rfl rfl id rfl hnot
  | pong => exact h.readerAt hothers hframe hwas (.inl rfl) rfl rfl id rfl hnot
  | close => exact h.readerAt hothers hframe hwas (.inl rfl) rfl rfl id rfl hopened

theorem ending?_afterOffer (topics : List String) :
    Standing.ending? (.reader (afterOffer topics)) = none := by
  cases topics <;> rfl

theorem readsRightly_afterOffer (h : c.state ≠ .reconnecting) (topics : List String) :
    c.ReadsRightly (afterOffer topics) := by
  cases topics <;> exact h

/-- What the reader does that finds the stream live and leaves it live. -/
theorem Sound.staysLive {d : Connection} {p : ReaderPoint} (h : Sound c)
    (hothers : ∀ u, u ≠ .reader → c.isQuiet u = true)
    (hframe : ∀ u, u ≠ .reader → (d.readerAt p).standing? u = c.standing? u)
    (hp : Standing.ending? (.reader p) = none) (hbefore : c.state.isLive = true)
    (hafter : d.state.isLive = true) (hconnected : d.state ≠ .connecting)
    (hopened : d.state = .opened → d.sink ≠ none)
    (hreads : (d.readerAt p).ReadsRightly p) : Sound (d.readerAt p) := by
  have hended : d.state.isLive ≠ false := by rw [hafter]; exact Bool.noConfusion
  refine h.step hothers hframe (fun hended => ?_) (fun s hs => ?_) (fun s parked e hs he => ?_)
    hreads hconnected (absurd · hended)
    (fun hclosed => absurd (congrArg State.isLive hclosed) hended) hopened
  · rw [hbefore] at hended; cases hended
  · cases hs
  · cases hs
    cases hp.symm.trans he

/-- The reader goes on without a write half that was lost, in whatever state the stream is. -/
theorem Sound.retire {turn : Turn Task} {p : ReaderPoint} (h : Sound c)
    (hothers : ∀ u, u ≠ .reader → c.isQuiet u = true)
    (hframe : ∀ u, u ≠ .reader →
      (({ c with turn, sink := none }).readerAt p).standing? u = c.standing? u)
    (hwas : Standing.ending? (.reader c.reader.point) = none)
    (hp : Standing.ending? (.reader p) = none) (hnot : c.state ≠ .opened)
    (hreads : (({ c with turn, sink := none }).readerAt p).ReadsRightly p) :
    Sound (({ c with turn, sink := none }).readerAt p) := by
  refine h.step hothers hframe (fun hended hbefore => ⟨hended, hbefore, id, fun _ => rfl⟩)
    (fun s hs => ?_) (fun s parked e hs he => ?_) hreads h.connected (fun hended => ?_)
    (fun hclosed => ⟨rfl, (h.closed hclosed).2⟩) (fun hopened => absurd hopened hnot)
  · cases hs
  · cases hs
    cases hp.symm.trans he
  · rcases h.cancelled_of_quiet hothers hended with hbefore | ⟨s, parked, hs, he⟩
    · exact .inl hbefore
    · cases hs
      rw [hwas] at he
      cases he

theorem Sound.of_readerStep (h : Sound c) (hothers : ∀ u, u ≠ .reader → c.isQuiet u = true)
    (hstep : ReaderStep c c' events) : Sound c' := by
  have hframe : ∀ u, u ≠ .reader → c'.standing? u = c.standing? u := fun u hu => hstep.standing? hu
  have hreads := h.reads
  have hlive : Standing.ending? (.reader c.reader.point) = none → c.cancelled = false →
      c.state = .opened ∨ c.state = .reconnecting := by
    refine fun hwas => h.live_of_not_cancelled hothers fun s parked hs => ?_
    cases hs
    simp [hwas]
  cases hstep with
  | stop hp | stopResting hp | stopRedialing hp | abandon hp =>
    exact h.readerAt hothers hframe (by rw [hp]; rfl) (.inl rfl) rfl rfl id rfl trivial
  | loseForGood hp =>
    exact h.readerAt hothers hframe (by rw [hp]; rfl) (.inr rfl) rfl rfl id rfl trivial
  | wake hp hcancelled | fail hp hcancelled | finish hp hcancelled =>
    rw [hp] at hreads hlive
    have hopened : c.state = .opened := (hlive rfl hcancelled).resolve_right hreads
    exact h.readerAt hothers hframe (by rw [hp]; rfl) (.inl rfl) rfl rfl id rfl hopened
  | read f hp hcancelled =>
    rw [hp] at hreads hlive
    have hopened : c.state = .opened := (hlive rfl hcancelled).resolve_right hreads
    exact h.readFrame hothers hframe (by rw [hp]; rfl) hopened
  | offer hp =>
    rw [hp] at hreads
    refine h.readerAt hothers hframe (by rw [hp]; rfl) ?_ rfl rfl id rfl ?_
    · exact .inl (ending?_afterOffer _)
    · exact readsRightly_afterOffer hreads _
  | forget hp =>
    rw [hp] at hreads
    refine h.readerAt hothers hframe (by rw [hp]; rfl) (.inl rfl) rfl rfl (fun hempty => ?_) rfl
      hreads
    exact (congrArg Subscriptions.topics (Subscriptions.forgetAll_of_empty _ hempty)).trans hempty
  | skip hp | answer hp | pong _ hp | pass hp | discard hp | rest hp | redial hp | dialFailed hp =>
    rw [hp] at hreads
    exact h.readerAt hothers hframe (by rw [hp]; rfl) (.inl rfl) rfl rfl id rfl hreads
  -- No other task runs before the reader waits again, so this lasts until the stream is opened,
  -- unless the reader has to wait for the turn.
  | dialed hp hcancelled =>
    rw [hp] at hreads hlive
    exact h.readerAt hothers hframe (by rw [hp]; rfl) (.inl rfl) rfl rfl id rfl
      ⟨(hlive rfl hcancelled).resolve_left hreads, hcancelled⟩
  | lose hp =>
    rw [hp] at hreads
    have hopened : c.state = .opened := hreads
    exact h.staysLive hothers hframe rfl (congrArg State.isLive hopened) rfl State.noConfusion
      State.noConfusion State.noConfusion
  | retire hp =>
    rw [hp] at hreads
    exact h.retire hothers hframe (by rw [hp]; rfl) rfl hreads hreads
  | @place s hp =>
    rw [hp] at hreads
    obtain ⟨hstate, hcancelled⟩ := hreads
    have hlive : c.state.isLive = true := congrArg State.isLive hstate
    exact h.staysLive hothers hframe rfl hlive hlive h.connected (fun _ => Option.some_ne_none s)
      ⟨hstate, hcancelled, rfl⟩
  | reopen hp =>
    rw [hp] at hreads
    obtain ⟨hstate, -, hsink⟩ := hreads
    refine h.staysLive hothers hframe rfl (congrArg State.isLive hstate) rfl State.noConfusion
      (fun _ hnone => ?_) State.noConfusion
    rw [show c.sink = none from hnone] at hsink
    cases hsink
  | @ending e d next events hp hending =>
    have hwas : c.standing? .reader = some (.reader (.ending e), c.reader.parked) := by
      rw [← hp]; rfl
    refine h.of_endingStep hothers hframe hwas rfl hending rfl ?_ rfl rfl rfl rfl ?_
    · cases next <;> rfl
    · cases next <;> trivial

theorem Sound.of_heartbeatStep (h : Sound c) (hothers : ∀ u, u ≠ .heartbeat → c.isQuiet u = true)
    (hstep : HeartbeatStep c c' events) : Sound c' := by
  have hframe : ∀ u, u ≠ .heartbeat → c'.standing? u = c.standing? u :=
    fun u hu => hstep.standing? hu
  have hne : Task.heartbeat ≠ .reader := Task.noConfusion
  cases hstep with
  | @ending e d next events hp hending =>
    have hwas : c.standing? .heartbeat = some (.heartbeat (.ending e), c.heartbeat.parked) := by
      rw [← hp]; rfl
    refine h.of_endingStep hothers hframe hwas rfl hending rfl ?_ rfl rfl rfl rfl
      (h.reads_of_ne_reader hothers hframe hne hending.state_eq_or_ended)
    cases next <;> rfl
  | giveUp hp =>
    refine h.same_of_ne_reader hothers hframe hne (fun s parked hs => ?_) (fun s parked hs => ?_)
      rfl id rfl rfl
    · cases hs; rw [hp]; rfl
    · cases hs; exact ⟨rfl, .inr rfl⟩
  | stop hp | tick hp | ready hp | skip hp | miss hp | ping hp | pinged hp | pingFailed hp
  | wake hp =>
    refine h.same_of_ne_reader hothers hframe hne (fun s parked hs => ?_) (fun s parked hs => ?_)
      rfl id rfl rfl
    · cases hs; rw [hp]; rfl
    · cases hs; exact ⟨rfl, .inl rfl⟩

/-- What a call to send does. -/
theorem Sound.sendAt {d : Connection} {n : CallId} {p : SendPoint} (h : Sound c)
    (hothers : ∀ u, u ≠ .send n → c.isQuiet u = true)
    (hframe : ∀ u, u ≠ .send n → (d.sendAt n p).standing? u = c.standing? u)
    (hstate : d.state = c.state) (hcancelled : d.cancelled = c.cancelled)
    (htopics : d.subscriptions = c.subscriptions) (hsink : d.sink = c.sink) :
    Sound (d.sendAt n p) := by
  refine h.same_of_ne_reader hothers hframe Task.noConfusion (fun s parked hs => ?_)
    (fun s parked hs => ?_) hstate (fun hbefore => hcancelled.trans hbefore) htopics hsink
  · obtain ⟨thread, -, heq⟩ := Option.map_eq_some_iff.mp hs
    cases heq
    rfl
  · obtain ⟨rfl, hparked⟩ := standing?_sendAt_self hs
    exact ⟨hparked, .inl rfl⟩

theorem Sound.of_sendStep {n : CallId} (h : Sound c)
    (hothers : ∀ u, u ≠ .send n → c.isQuiet u = true) (hstep : SendStep c n c' events) :
    Sound c' := by
  have hframe : ∀ u, u ≠ .send n → c'.standing? u = c.standing? u :=
    fun u hu => hstep.standing? hu
  cases hstep <;> exact h.sendAt hothers hframe rfl rfl rfl rfl

/-- What a call to close does before it ends the stream. -/
theorem Sound.closeAt {d : Connection} {n : CallId} {p₀ p : ClosePoint} (h : Sound c)
    (hothers : ∀ u, u ≠ .close n → c.isQuiet u = true)
    (hframe : ∀ u, u ≠ .close n → (d.closeAt n p).standing? u = c.standing? u)
    (hp₀ : c.closePoint? n = some p₀) (hwas : Standing.ending? (.close p₀) = none)
    (hp : Standing.ending? (.close p) = none ∨ Standing.ending? (.close p) = some .checking)
    (hstate : d.state = c.state) (hcancelled : c.cancelled = true → d.cancelled = true)
    (htopics : d.subscriptions = c.subscriptions) (hsink : d.sink = c.sink) :
    Sound (d.closeAt n p) := by
  refine h.same_of_ne_reader hothers hframe Task.noConfusion (fun s parked hs => ?_)
    (fun s parked hs => ?_) hstate hcancelled htopics hsink
  · obtain ⟨thread, hthread, heq⟩ := Option.map_eq_some_iff.mp hs
    cases heq
    rw [closePoint?, hthread] at hp₀
    cases hp₀
    exact hwas
  · obtain ⟨rfl, hparked⟩ := standing?_closeAt_self hs
    exact ⟨hparked, hp⟩

theorem Sound.of_closeStep {n : CallId} (h : Sound c)
    (hothers : ∀ u, u ≠ .close n → c.isQuiet u = true) (hstep : CloseStep c n c' events) :
    Sound c' := by
  have hframe : ∀ u, u ≠ .close n → c'.standing? u = c.standing? u :=
    fun u hu => hstep.standing? hu
  cases hstep with
  | take hp | leave hp | begin hp | join hp =>
    exact h.closeAt hothers hframe hp rfl (.inl rfl) rfl id rfl rfl
  | cancel hp => exact h.closeAt hothers hframe hp rfl (.inl rfl) rfl (fun _ => rfl) rfl rfl
  | joined hp => exact h.closeAt hothers hframe hp rfl (.inr rfl) rfl id rfl rfl
  | @abort t rest since hp =>
    refine h.closeAt hothers hframe hp rfl (.inl rfl) ?_ ?_ ?_ ?_ <;> cases t <;>
      first | rfl | exact id
  | ending hp hending | ended hp hending =>
    obtain ⟨parked, hwas⟩ := standing?_of_closePoint? hp
    have hreads := h.reads_of_ne_reader hothers hframe Task.noConfusion hending.state_eq_or_ended
    obtain ⟨_, _, _, _, _, rfl⟩ := hending.frame
    exact h.of_endingStep hothers hframe hwas rfl hending (standing?_closeAt_of_closePoint? hp) rfl
      rfl rfl rfl rfl hreads

/-- A task waits where it may. -/
theorem mayRest_of_waits (hwaits : c.waits t = true)
    (hplacing : t = .reader → ∀ s, c.reader.point ≠ .placing s)
    (hs : c.standing? t = some (s, parked)) : s.mayRest = true := by
  have hending : ∀ e, c.endingWaits t e = true → mayRestEnding e = true := by
    intro e he
    cases e <;> first | rfl | cases he
  cases t with
  | reader =>
    cases hs
    have hnot := hplacing rfl
    cases hp : c.reader.point with
    | placing s => exact absurd hp (hnot s)
    | ending e =>
      simp only [waits, hp] at hwaits
      exact hending e hwaits
    | offering | forgetting | losing | redialing | opening =>
      simp only [waits, hp] at hwaits
      cases hwaits
    | _ => rfl
  | heartbeat =>
    cases hs
    cases hp : c.heartbeat.point with
    | ending e =>
      simp only [waits, hp] at hwaits
      exact hending e hwaits
    | _ => rfl
  | send n =>
    obtain ⟨thread, -, heq⟩ := Option.map_eq_some_iff.mp hs
    cases heq
    rfl
  | close n =>
    obtain ⟨thread, hthread, heq⟩ := Option.map_eq_some_iff.mp hs
    cases heq
    cases hp : thread.point with
    | ending e =>
      simp only [waits, closePoint?, hthread, Option.map_some, hp] at hwaits
      exact hending e hwaits
    | _ => rfl

theorem Sound.suspend {turn : Turn Task} (h : Sound c) (hothers : ∀ u, u ≠ t → c.isQuiet u = true)
    (hwaits : c.waits t = true) (hplacing : t = .reader → ∀ s, c.reader.point ≠ .placing s) :
    Sound (({ c with turn }).park t) := by
  have hframe : ∀ u, u ≠ t → (({ c with turn }).park t).standing? u = c.standing? u :=
    fun u hu => (standing?_park hu).trans (by cases u <;> rfl)
  have hself : ∀ s parked, (({ c with turn }).park t).standing? t = some (s, parked) →
      ∃ before, c.standing? t = some (s, before) := by
    intro s parked hs
    rw [standing?_park_self] at hs
    obtain ⟨⟨s, before⟩, hbefore, heq⟩ := Option.map_eq_some_iff.mp hs
    cases heq
    exact ⟨before, by rw [← hbefore]; cases t <;> rfl⟩
  have hsame : ∃ reader heartbeat sends closes, ({ c with turn }).park t =
      { c with turn, reader, heartbeat, sends, closes } ∧ reader.point = c.reader.point := by
    cases t <;> exact ⟨_, _, _, _, rfl, rfl⟩
  obtain ⟨reader, heartbeat, sends, closes, heq, hreader⟩ := hsame
  rw [heq] at hframe hself ⊢
  refine h.step hothers hframe (fun hended hbefore => ⟨hended, hbefore, id, id⟩) (fun s hs => ?_)
    (fun s parked e hs he => ?_) ?_ h.connected (fun hended => ?_) h.closed h.opened
  · obtain ⟨before, hbefore⟩ := hself s true hs
    exact mayRest_of_waits hwaits hplacing hbefore
  · obtain ⟨before, hbefore⟩ := hself s parked hs
    exact h.ends t s before e hbefore he
  · rw [hreader]
    exact h.reads
  · rcases h.cancelled_of_quiet hothers hended with hbefore | ⟨s, before, hbefore, he⟩
    · exact .inl hbefore
    · have hrest := mayRest_of_waits hwaits hplacing hbefore
      rw [Standing.mayRest_of_ending he] at hrest
      cases hrest

/-- What happens while all tasks wait, without changing the state or the write half. -/
theorem Sound.calm (h : Sound c) (hall : ∀ u, c.isQuiet u = true) (t : Task)
    (hframe : ∀ u, u ≠ t → c'.standing? u = c.standing? u)
    (hnow : ∀ s parked, c'.standing? t = some (s, parked) →
      c.standing? t = some (s, parked) ∨ parked = false ∧ s.ending? = none)
    (hstate : c'.state = c.state) (hcancelled : c.cancelled = true → c'.cancelled = true)
    (htopics : c.state.isLive = false → c.subscriptions.topics = ∅ → c'.subscriptions.topics = ∅)
    (hsink : c'.sink = c.sink)
    (hpoint : c'.reader.point = c.reader.point ∨ c'.reader.point = .finished) : Sound c' := by
  refine h.same (fun u _ => hall u) hframe (fun s parked hs he => ?_) (fun s parked hs => ?_) hstate
    hcancelled htopics hsink ?_
  · cases h.mayRestEnding_of_quiet hs (hall t) he
  · rcases hnow s parked hs with hbefore | ⟨hparked, hnone⟩
    · exact .inl hbefore
    · exact .inr ⟨hparked, .inl hnone⟩
  · rcases hpoint with hpoint | hpoint <;> rw [hpoint]
    · exact h.reads.keeps (h.reader_rests (hall .reader)) (.inl hstate)
    · trivial

/-- Every admitted move keeps a stream sound, unless the reader comes to wait for the turn with a
new write half in hand. -/
theorem Sound.of_transition (h : Sound c) (hadmits : c.admits .await m = true)
    (hplacing : m = .step .reader .suspend → ∀ s, c.reader.point ≠ .placing s)
    (hstep : Transition c m c' events) : Sound c' := by
  cases hstep with
  | suspend hwaits =>
    exact h.suspend (fun u hu => quiet_of_admits_step hadmits hu) hwaits
      fun ht => hplacing (ht ▸ rfl)
  | reader hstep => exact h.of_readerStep (fun u hu => quiet_of_admits_step hadmits hu) hstep
  | heartbeat hstep => exact h.of_heartbeatStep (fun u hu => quiet_of_admits_step hadmits hu) hstep
  | sending hstep => exact h.of_sendStep (fun u hu => quiet_of_admits_step hadmits hu) hstep
  | closing hstep => exact h.of_closeStep (fun u hu => quiet_of_admits_step hadmits hu) hstep
  | reapReader =>
    refine h.calm (fun _ => quiet_of_isSettled hadmits) .reader (fun u hu => ?_)
      (fun s parked hs => ?_) rfl id (fun _ => id) rfl (.inr rfl)
    · cases u <;> first | rfl | exact absurd rfl hu
    · cases hs; exact .inr ⟨rfl, rfl⟩
  | reapHeartbeat =>
    refine h.calm (fun _ => quiet_of_isSettled hadmits) .heartbeat (fun u hu => ?_)
      (fun s parked hs => ?_) rfl id (fun _ => id) rfl (.inl rfl)
    · cases u <;> first | rfl | exact absurd rfl hu
    · cases hs; exact .inr ⟨rfl, rfl⟩
  | subscribe topic hlive =>
    refine h.calm (fun _ => quiet_of_isSettled hadmits) .reader (fun u _ => ?_)
      (fun _ _ => .inl) rfl id (fun hended => ?_) rfl (.inl rfl)
    · cases u <;> rfl
    · cases hlive.symm.trans hended
  | refuse => exact h
  | unsubscribe topic =>
    refine h.calm (fun _ => quiet_of_isSettled hadmits) .reader (fun u _ => ?_)
      (fun _ _ => .inl) rfl id (fun _ hempty => ?_) rfl (.inl rfl)
    · cases u <;> rfl
    · exact (congrArg (KeyMap.erase · topic) hempty).trans rfl
  | @receive id v rest hreceive =>
    refine h.calm (fun _ => quiet_of_isSettled hadmits) .reader (fun u _ => ?_)
      (fun _ _ => .inl) rfl (fun hbefore => hbefore) (fun _ hempty => ?_) rfl (.inl rfl)
    · cases u <;> rfl
    · exact (Subscriptions.receive?_spec hreceive).2.2.1.trans hempty
  | dropReceiver id =>
    refine h.calm (fun _ => quiet_of_isSettled hadmits) .reader (fun u _ => ?_)
      (fun _ _ => .inl) rfl (fun hbefore => hbefore) (fun _ hempty => hempty) rfl (.inl rfl)
    cases u <;> rfl
  | send message =>
    refine h.calm (fun _ => quiet_of_isSettled hadmits) (.send c.sends.length)
      (fun u hu => standing?_start_send hu) (fun s parked hs => ?_) rfl id (fun _ => id) rfl
      (.inl rfl)
    simp only [Connection.standing?, List.getElem?_concat_length] at hs
    cases hs
    exact .inr ⟨rfl, rfl⟩
  | close =>
    refine h.calm (fun _ => quiet_of_isSettled hadmits) (.close c.closes.length)
      (fun u hu => standing?_start_close hu) (fun s parked hs => ?_) rfl id (fun _ => id) rfl
      (.inl rfl)
    simp only [Connection.standing?, List.getElem?_concat_length] at hs
    cases hs
    exact .inr ⟨rfl, rfl⟩
  | dropHandle =>
    obtain ⟨reader, heartbeat, heq⟩ := abort_frame c.tasks { c with cancelled := true, tasks := [] }
    rw [heq]
    refine h.calm (fun _ => quiet_of_isSettled hadmits) .reader (fun u _ => ?_)
      (fun _ _ => .inl) rfl (fun _ => rfl) (fun _ => id) rfl (.inl rfl)
    cases u <;> rfl
  | elapse nanos =>
    refine h.calm (fun _ => quiet_of_isSettled hadmits) .reader (fun u _ => ?_)
      (fun _ _ => .inl) rfl id (fun _ => id) rfl (.inl rfl)
    cases u <;> rfl

/-- How a move may change the state. -/
theorem Sound.state_mayBecome (h : Sound c) (hstep : Transition c m c' events) :
    c'.state = c.state ∨ c.state.mayBecome c'.state = true := by
  have hreads := h.reads
  cases hstep with
  | @suspend t => cases t <;> exact .inl rfl
  | reader hstep =>
    cases hstep with
    | read f => cases f <;> exact .inl rfl
    | lose hp =>
      rw [hp] at hreads
      exact .inr (by rw [show c.state = .opened from hreads]; rfl)
    | reopen hp =>
      rw [hp] at hreads
      exact .inr (by rw [hreads.1]; rfl)
    | ending hp hending =>
      exact hending.state_mayBecome h (h.ends .reader _ _ _ rfl (by rw [hp]; rfl))
    | _ => exact .inl rfl
  | heartbeat hstep =>
    cases hstep with
    | ending hp hending =>
      exact hending.state_mayBecome h (h.ends .heartbeat _ _ _ rfl (by rw [hp]; rfl))
    | _ => exact .inl rfl
  | sending hstep => cases hstep <;> exact .inl rfl
  | closing hstep =>
    cases hstep with
    | @abort t => cases t <;> exact .inl rfl
    | ending hp hending | ended hp hending =>
      obtain ⟨parked, hs⟩ := standing?_of_closePoint? hp
      exact hending.state_mayBecome h (h.ends _ _ _ _ hs rfl)
    | _ => exact .inl rfl
  | dropHandle =>
    obtain ⟨_, _, heq⟩ := abort_frame c.tasks { c with cancelled := true, tasks := [] }
    rw [heq]
    exact .inl rfl
  | _ => exact .inl rfl

theorem sound_opened (address : String) (settings : StreamSettings) (now : Instant) (epoch : Int) :
    Sound (opened address settings now epoch) := by
  have hstanding : ∀ t s parked,
      (opened address settings now epoch).standing? t = some (s, parked) →
      s.ending? = none ∧ s.mayRest = true := by
    intro t s parked hs
    cases t with
    | reader => cases hs; exact ⟨rfl, rfl⟩
    | heartbeat =>
      cases hs
      unfold opened
      cases settings.pingInterval? <;> exact ⟨rfl, rfl⟩
    | send | close => cases hs
  refine ⟨fun t s hs => (hstanding t s true hs).2, fun t s parked e hs he => ?_,
    State.noConfusion, State.noConfusion, Bool.noConfusion, State.noConfusion,
    fun _ => Option.some_ne_none 0⟩
  rw [(hstanding t s parked hs).1] at he
  cases he

/-- A stream goes on to another, and its reader never waits for the turn with a new write half in
hand. -/
inductive Unhindered (c : Connection) : Connection → Prop where
  | refl : Unhindered c c
  | move {c₁ c₂ : Connection} {events : List Event} {m : Move} : Unhindered c c₁ →
      c₁.admits .await m = true → c₁.next? m = some (c₂, events) →
      (m = .step .reader .suspend → ∀ s, c₁.reader.point ≠ .placing s) → Unhindered c c₂

theorem Unhindered.sound {d : Connection} (h : Unhindered d c) (hd : Sound d) : Sound c := by
  induction h with
  | refl => exact hd
  | move _ hadmits hnext hplacing ih => exact ih.of_transition hadmits hplacing (.of_next? hnext)

/-- The life of a stream whose reader never waits for the turn with a new write half in hand: the
state only moves on, an open stream has a write half, and a closed one has neither a write half nor
a topic and is cancelled. -/
theorem Unhindered.lifecycle {address : String} {settings : StreamSettings} {now : Instant}
    {epoch : Int} (h : Unhindered (opened address settings now epoch) c) :
    (c.state = .opened → c.sink ≠ none) ∧
      (c.state = .closed → c.sink = none ∧ c.subscriptions.topics = ∅ ∧ c.cancelled = true) ∧
      ∀ m c' events, c.next? m = some (c', events) →
        c'.state = c.state ∨ c.state.mayBecome c'.state = true := by
  have hsound := h.sound (sound_opened address settings now epoch)
  refine ⟨hsound.opened, hsound.closed, fun m c' events hnext => ?_⟩
  exact hsound.state_mayBecome (.of_next? hnext)

/-- A send waits behind another one while the socket is lost. It is not told that its turn has come
until a dial has succeeded and the reader waits behind it, and until one call to close waits for the
reader and another one for the turn. -/
def hinderingMoves : List Move :=
  [.send (.text "first"), .step (.send 0) .go, .step (.send 0) .go, .step (.send 0) .suspend,
    .step .reader (.frame .close), .step .reader .go, .step .reader .suspend,
    .send (.text "second"), .step (.send 1) .go, .step (.send 1) .suspend,
    .step (.send 0) .written, .step .reader .go, .step .reader .suspend,
    .step .reader .written, .step .reader .suspend, .elapse 5000000000,
    .step .reader .go, .step .reader .go, .step .reader .suspend,
    .step .reader .dialed, .step .reader .suspend,
    .close, .step (.close 0) .go, .step (.close 0) .go, .step (.close 0) .go,
    .step (.close 0) .suspend,
    .close, .step (.close 1) .go, .step (.close 1) .go, .step (.close 1) .go, .step (.close 1) .go,
    .step (.close 1) .go, .step (.close 1) .go, .step (.close 1) .go, .step (.close 1) .go,
    .step (.close 1) .suspend, .step (.send 1) .go, .step .reader .go]

/-- A reader that waited with a new write half in hand opens a stream that is closing. -/
theorem opens_while_closing : ∃ c c' history events,
    Run .punctual "ws://host/" { pingIntervalMs := 0 } 0 0 0 c history ∧
      c.admits .punctual (.step .reader .go) = true ∧
      c.next? (.step .reader .go) = some (c', events) ∧ c.state = .closing ∧ c'.state = .opened :=
  ⟨_, _, _, _, ⟨Nat.le_refl 0, Reaches.of_follow? hinderingMoves .refl rfl⟩, rfl, rfl, rfl, rfl⟩

/-- A topic that is subscribed after such an opening outlives the stream. -/
theorem topic_outlives_closing : ∃ c history,
    Run .punctual "ws://host/" { pingIntervalMs := 0 } 0 0 0 c history ∧
      c.state = .closed ∧ c.isSettled = true ∧ c.subscriptions.topics.get? "topic" = some 0 :=
  ⟨_, _, ⟨Nat.le_refl 0, Reaches.of_follow? (hinderingMoves ++ [.step .reader .go,
    .step .reader .go, .step (.close 1) .go, .step (.close 1) .suspend, .subscribe "topic",
    .step (.close 1) .written, .step (.close 1) .suspend, .step (.close 1) .written,
    .step (.close 1) .go, .step (.close 0) .go, .step (.close 0) .go, .step (.close 0) .go]) .refl
    rfl⟩, rfl, rfl, rfl⟩

end Connection

end Uplink.Stream
