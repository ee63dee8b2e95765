import Uplink.Proofs.Stream.GivingUp
import Uplink.Proofs.Stream.Refusal

/-! What closing leaves of a stream whose calls to close follow each other. The call that closes a
stream has waited for its reader first, or has seen to it that the reader is aborted, so that
nobody opens the stream behind its back: once the stream is closed no topic is left. -/

namespace Uplink.Stream.Connection

/-- Every call to close but the latest has returned. -/
def ClosesApart (c : Connection) : Prop :=
  ∀ k, k + 1 < c.closes.length → c.closePoint? k = some .returned

/-- What holds while the only call to close a stream is at a point of ending it. -/
def ClosesRightly (c : Connection) : Ending → Prop
  | .checking | .marking => c.isLive = true
  | .cancelling | .clearing => c.state = .closing
  | .waiting | .saying .. | .shutting .. | .finishing =>
    c.state = .closing ∧ c.subscriptions.topics = ∅

/-- What holds of a stream that dials again and is not closed, with one call to close it or none. -/
structure Lone (c : Connection) : Prop where
  single : c.closes.length ≤ 1
  reconnect : c.settings.reconnect = true
  seen : SeenTo c
  reader : ∀ e, c.reader.point ≠ .ending e
  heartbeat : ∀ e, c.heartbeat.point ≠ .ending e
  ending : ∀ k e, c.closePoint? k = some (.ending e) → c.ClosesRightly e
  live : (∀ k e, c.closePoint? k ≠ some (.ending e)) → c.isLive = true
  running : ∀ k, c.closePoint? k ≠ some .returned

/-- A closed stream without a topic. -/
structure Silent (c : Connection) : Prop where
  closed : c.state = .closed
  topics : c.subscriptions.topics = ∅

/-- What holds of a stream in every run in which calls to close it follow each other. -/
inductive Tidy (c : Connection) : Prop where
  | steady : Steady c → Tidy c
  | lone : Lone c → Tidy c
  | silent : Silent c → Tidy c

variable {c c' d : Connection} {t : Task} {m : Move} {n k : CallId} {sig : Signal}
  {events : List Event} {e : Ending} {next : Option Ending} {p q : ClosePoint} {address : String}
  {settings : StreamSettings} {now : Instant} {epoch : Int}

theorem ClosesRightly.not_closed (h : c.ClosesRightly e) : c.state ≠ .closed := by
  intro hclosed
  cases e with
  | checking | marking =>
    rw [ClosesRightly, isLive, hclosed] at h
    cases h
  | cancelling | clearing => cases hclosed.symm.trans (show c.state = .closing from h)
  | _ => cases hclosed.symm.trans (show c.state = .closing from h.1)

theorem Lone.not_closed (h : Lone c) : c.state ≠ .closed := by
  by_cases hending : ∃ k e, c.closePoint? k = some (.ending e)
  · obtain ⟨k, e, hp⟩ := hending
    exact (h.ending k e hp).not_closed
  · intro hclosed
    have hlive := h.live fun k e hp => hending ⟨k, e, hp⟩
    rw [isLive, hclosed] at hlive
    cases hlive

theorem Lone.eq_zero (h : Lone c) (hp : c.closePoint? k = some p) : k = 0 :=
  Nat.lt_one_iff.mp (Nat.lt_of_lt_of_le (lt_length_of_closePoint? hp) h.single)

/-- When the only call to close ends the stream, its reader takes no step any more. -/
theorem Lone.no_ending_of_step (h : Lone c) (hstep : c.step? .reader sig = some (c', events))
    (hreader : ReaderStep c c' events) : ∀ k e, c.closePoint? k ≠ some (.ending e) := by
  intro k e hp
  obtain ⟨-, -, -, hrunning⟩ := hreader.frame
  have hnot := h.seen.not_aborted hstep hrunning
  rcases h.seen.kept hnot hrunning with hmem | ⟨j, q, hq, hmem⟩
  · rw [h.seen.taken k _ hp (by simp)] at hmem
    cases hmem
  · rw [h.eq_zero hq, ← h.eq_zero hp, hp] at hq
    cases hq
    cases hmem

theorem ClosesRightly.same (h : c.ClosesRightly e) (hstate : c'.state = c.state)
    (htopics : c.isLive = false → c.subscriptions.topics = ∅ → c'.subscriptions.topics = ∅) :
    c'.ClosesRightly e := by
  have hclosing : c.state = .closing → c.isLive = false := fun hclosing => by
    rw [isLive, hclosing]
    rfl
  cases e with
  | checking | marking => exact (congrArg State.isLive hstate).trans h
  | cancelling | clearing => exact hstate.trans h
  | _ => exact ⟨hstate.trans h.1, htopics (hclosing h.1) h.2⟩

namespace Lone

variable (h : Lone c)
include h

/-- What leaves the calls to close where they are. -/
theorem same (hseen : SeenTo c') (hsettings : c'.settings = c.settings)
    (hlength : c'.closes.length = c.closes.length)
    (hcloses : ∀ n, c'.closePoint? n = c.closePoint? n)
    (hreader : ∀ e, c'.reader.point ≠ .ending e)
    (hheartbeat : ∀ e, c'.heartbeat.point ≠ .ending e)
    (hlive : (∀ k e, c.closePoint? k ≠ some (.ending e)) → c.isLive = true → c'.isLive = true)
    (hending : ∀ k e, c.closePoint? k = some (.ending e) → c.ClosesRightly e →
      c'.ClosesRightly e) : Lone c' where
  single := hlength ▸ h.single
  reconnect := hsettings ▸ h.reconnect
  seen := hseen
  reader := hreader
  heartbeat := hheartbeat
  ending := fun k e hp => hending k e (hcloses k ▸ hp) (h.ending k e (hcloses k ▸ hp))
  live := fun hnone => by
    have hwas : ∀ k e, c.closePoint? k ≠ some (.ending e) := fun k e => hcloses k ▸ hnone k e
    exact hlive hwas (h.live hwas)
  running := fun k => hcloses k ▸ h.running k

theorem of_readerStep (hseen : SeenTo c') (hstep : c.step? .reader sig = some (c', events))
    (hreader : ReaderStep c c' events) : Lone c' := by
  have hnone := h.no_ending_of_step hstep hreader
  have hheartbeat := (heartbeat_of_standing? (hreader.standing? (u := .heartbeat) (by simp))).1
  obtain ⟨hcloses, -⟩ := hreader.frame
  have hsettings := (Transition.of_step? hstep).settings_eq
  refine h.same hseen hsettings (by rw [hcloses]) (fun n => by rw [closePoint?, hcloses]; rfl)
    (fun e hp => ?_) (by rw [hheartbeat]; exact h.heartbeat) (fun _ hlive => ?_)
    fun k e hp => absurd hp (hnone k e)
  · cases hreader with
    | read f => cases f <;> cases hp
    | offer =>
      simp only [point_readerAt] at hp
      unfold afterOffer at hp
      split at hp <;> cases hp
    | loseForGood _ hreconnect => cases hreconnect.symm.trans h.reconnect
    | ending hending => exact absurd hending (h.reader _)
    | _ => cases hp
  · cases hreader with
    | read f => cases f <;> exact hlive
    | lose | reopen => rfl
    | ending hending => exact absurd hending (h.reader _)
    | _ => exact hlive

theorem of_heartbeatStep (hseen : SeenTo c') (hsettings : c'.settings = c.settings)
    (hstep : HeartbeatStep c c' events) : Lone c' := by
  obtain ⟨hcloses, -, hreader⟩ := hstep.frame
  have hstate : c'.state = c.state ∧ c'.subscriptions = c.subscriptions := by
    cases hstep with
    | ending hending => exact absurd hending (h.heartbeat _)
    | _ => exact ⟨rfl, rfl⟩
  refine h.same hseen hsettings (by rw [hcloses]) (fun n => by rw [closePoint?, hcloses]; rfl)
    (by rw [hreader]; exact h.reader) (fun e hp => ?_) (fun _ hlive => ?_)
    fun k e _ hrightly => hrightly.same hstate.1 fun _ htopics => hstate.2 ▸ htopics
  · cases hstep with
    | giveUp _ hreconnect => cases hreconnect.symm.trans h.reconnect
    | ending hending => exact absurd hending (h.heartbeat _)
    | _ => cases hp
  · exact (congrArg State.isLive hstate.1).trans hlive

/-- A step of the only call to close from one point to another. -/
theorem closeAt (hseen : SeenTo (d.closeAt n q)) (hp : c.closePoint? n = some p)
    (hcloses : d.closes = c.closes) (hsettings : d.settings = c.settings)
    (hreader : d.reader.point = c.reader.point)
    (hheartbeat : d.heartbeat.point = c.heartbeat.point)
    (hending : ∀ e, q = .ending e → d.ClosesRightly e)
    (hlive : (∀ e, q ≠ .ending e) → d.isLive = true) (hrunning : q ≠ .returned) :
    Lone (d.closeAt n q) := by
  have hd : d.closePoint? n = some p := by rw [closePoint?, hcloses]; exact hp
  have hlength : (d.closeAt n q).closes.length = c.closes.length := by
    rw [← hcloses]
    exact List.length_set
  -- It is the only one there is.
  have honly : ∀ k p, (d.closeAt n q).closePoint? k = some p → k = n ∧ p = q := by
    intro k p hk
    rw [closePoint?_closeAt hd] at hk
    split at hk
    · next hkn => exact ⟨hkn, (Option.some.inj hk).symm⟩
    · next hkn =>
      have hwas : c.closePoint? k = some p := by rw [closePoint?, ← hcloses]; exact hk
      exact absurd ((h.eq_zero hwas).trans (h.eq_zero hp).symm) hkn
  refine ⟨hlength ▸ h.single, hsettings ▸ h.reconnect, hseen, fun e hr => ?_, fun e hb => ?_,
    fun k e hk => ?_, fun hnone => hlive fun e hq => ?_, fun k hk => ?_⟩
  · exact h.reader e (hreader ▸ hr)
  · exact h.heartbeat e (hheartbeat ▸ hb)
  · exact hending e (honly k _ hk).2.symm
  · refine hnone n e ?_
    rw [closePoint?_closeAt hd, if_pos rfl, hq]
  · exact hrunning (honly k _ hk).2.symm

/-- No point of ending the stream is reached before all tasks have been waited for. -/
theorem isLive_of_closePoint? (hp : c.closePoint? n = some p) (hnot : ∀ e, p ≠ .ending e) :
    c.isLive = true := by
  refine h.live fun k e hk => ?_
  rw [h.eq_zero hk, ← h.eq_zero hp, hp] at hk
  exact hnot e (Option.some.inj hk)

theorem of_closeStep (hseen : SeenTo c') (hstep : CloseStep c n c' events) :
    Lone c' ∨ Silent c' := by
  cases hstep with
  | leave hp hclosed => exact absurd hclosed h.not_closed
  | take hp | begin hp | cancel hp | join hp =>
    have hlive := h.isLive_of_closePoint? hp (by simp)
    exact .inl (h.closeAt hseen hp rfl rfl rfl rfl (by simp) (fun _ => hlive) (by simp))
  | @abort t rest since hp =>
    have hlive := h.isLive_of_closePoint? hp (by simp)
    refine .inl (h.closeAt hseen hp ?_ ?_ ?_ ?_ (by simp) (fun _ => ?_) (by simp)) <;>
      cases t <;> first | rfl | exact hlive
  | joined hp =>
    have hlive := h.isLive_of_closePoint? hp (by simp)
    refine .inl (h.closeAt hseen hp rfl rfl rfl rfl (fun e he => ?_) (fun hnone => ?_) (by simp))
    · cases he
      exact hlive
    · exact absurd rfl (hnone .checking)
  | @ending e e' d _ hp hending =>
    have hrightly := h.ending n e hp
    have hnow : d.ClosesRightly e' := by
      cases hending with
      | begin => exact hrightly
      | mark | cancel => first | rfl | exact hrightly
      | clear => exact ⟨hrightly, rfl⟩
      | pass | withdraw | say | shut => exact hrightly
    obtain ⟨_, _, _, _, _, rfl⟩ := hending.frame
    refine .inl (h.closeAt hseen hp rfl rfl rfl rfl (fun e he => ?_) (fun hnone => ?_) (by simp))
    · cases he
      exact hnow
    · exact absurd rfl (hnone e')
  | @ended e d _ hp hending =>
    have hrightly := h.ending n e hp
    cases hending with
    | alreadyClosed hclosed => exact absurd hclosed h.not_closed
    | finish => exact .inr ⟨rfl, hrightly.2⟩

/-- As long as the handle is held and calls to close follow each other, every admitted move keeps it
so, or closes the stream for good. -/
theorem of_next? (hadmits : c.admits .await m = true) (hnext : c.next? m = some (c', events))
    (hheld : m ≠ .dropHandle) (hapart : c'.ClosesApart) : Lone c' ∨ Silent c' := by
  have hstep := Transition.of_next? hnext
  have hseen := h.seen.of_next? hadmits hnext hheld
  have hsettings := hstep.settings_eq
  cases hstep with
  | @suspend t =>
    have hframe : ∀ d : Connection, d = ({ c with turn := if c.awaitsTurn t then c.turn.join t else
        c.turn }).park t → d.reader.point = c.reader.point ∧
        d.heartbeat.point = c.heartbeat.point ∧ d.closes.length = c.closes.length ∧
        d.state = c.state ∧ d.subscriptions = c.subscriptions := by
      rintro d rfl
      cases t <;> simp [park]
    obtain ⟨hreader, hheartbeat, hlength, hstate, htopics⟩ := hframe _ rfl
    refine .inl (h.same hseen hsettings hlength (fun n => closePoint?_park) ?_ ?_
      (fun _ hlive => ?_) fun k e _ hrightly => hrightly.same hstate fun _ hnone =>
        (congrArg Subscriptions.topics htopics).trans hnone)
    · rw [hreader]; exact h.reader
    · rw [hheartbeat]; exact h.heartbeat
    · exact (congrArg State.isLive hstate).trans hlive
  | reader hreader => exact .inl (h.of_readerStep hseen hnext hreader)
  | heartbeat hheartbeat => exact .inl (h.of_heartbeatStep hseen hsettings hheartbeat)
  | sending hsend =>
    refine .inl ?_
    cases hsend <;> exact h.same hseen rfl rfl (fun _ => rfl) h.reader h.heartbeat
      (fun _ hlive => hlive) fun k e _ hrightly => hrightly.same rfl fun _ hnone => hnone
  | closing hclose => exact h.of_closeStep hseen hclose
  | close =>
    have hnone : c.closes.length = 0 := by
      by_contra hne
      have hone : c.closes.length = 1 := Nat.le_antisymm h.single (Nat.pos_of_ne_zero hne)
      have hreturned := hapart 0 (by simp [hone])
      rw [closePoint?_start_close, if_neg (Ne.symm hne)] at hreturned
      exact h.running 0 hreturned
    have hpoint : ∀ k p, ({ c with closes := c.closes ++ [⟨.taking, false, false⟩] } :
        Connection).closePoint? k = some p → p = .taking := by
      intro k p hp
      rw [closePoint?_start_close] at hp
      split at hp
      · exact (Option.some.inj hp).symm
      · have hlt := lt_length_of_closePoint? hp
        rw [hnone] at hlt
        exact absurd hlt (Nat.not_lt_zero k)
    refine .inl ⟨by simp [hnone], h.reconnect, hseen, h.reader, h.heartbeat, fun k e hp => ?_,
      fun _ => h.live fun k e hp => ?_, fun k hp => ?_⟩
    · cases hpoint k _ hp
    · have hlt := lt_length_of_closePoint? hp
      rw [hnone] at hlt
      exact absurd hlt (Nat.not_lt_zero k)
    · cases hpoint k _ hp
  | dropHandle => exact absurd rfl hheld
  | reapReader =>
    exact .inl (h.same hseen rfl rfl (fun _ => rfl) (by simp) h.heartbeat (fun _ hlive => hlive)
      fun k e _ hrightly => hrightly.same rfl fun _ hnone => hnone)
  | reapHeartbeat =>
    exact .inl (h.same hseen rfl rfl (fun _ => rfl) h.reader (by simp [heartbeatAt])
      (fun _ hlive => hlive) fun k e _ hrightly => hrightly.same rfl fun _ hnone => hnone)
  | subscribe topic hlive =>
    refine .inl (h.same hseen rfl rfl (fun _ => rfl) h.reader h.heartbeat (fun _ hlive => hlive)
      fun k e _ hrightly => hrightly.same rfl fun hdead => ?_)
    cases hlive.symm.trans hdead
  | unsubscribe topic =>
    exact .inl (h.same hseen rfl rfl (fun _ => rfl) h.reader h.heartbeat (fun _ hlive => hlive)
      fun k e _ hrightly => hrightly.same rfl fun _ hnone =>
        (congrArg (KeyMap.erase · topic) hnone).trans rfl)
  | receive hreceive =>
    exact .inl (h.same hseen rfl rfl (fun _ => rfl) h.reader h.heartbeat (fun _ hlive => hlive)
      fun k e _ hrightly => hrightly.same rfl fun _ hnone =>
        (Subscriptions.receive?_spec hreceive).2.2.1.trans hnone)
  | refuse | dropReceiver | send | elapse =>
    exact .inl (h.same hseen rfl rfl (fun _ => rfl) h.reader h.heartbeat (fun _ hlive => hlive)
      fun k e _ hrightly => hrightly.same rfl fun _ hnone => hnone)

end Lone

/-- A closed stream without a topic stays so. -/
theorem Silent.of_transition (h : Silent c) (hcloses : Closes c)
    (hstep : Transition c m c' events) : Silent c' := by
  refine ⟨hcloses.closed_of_transition hstep h.closed, ?_⟩
  have htopics := h.topics
  have hending : ∀ {t e d next events}, EndingStep c t e d next events →
      d.subscriptions.topics = ∅ := by
    intro t e d next events hending
    cases hending <;> first | exact htopics | rfl
  cases hstep with
  | @suspend t => cases t <;> exact htopics
  | reader hreader =>
    cases hreader with
    | read f => cases f <;> exact htopics
    | @forget topics =>
      exact (congrArg Subscriptions.topics (Subscriptions.forgetAll_of_empty topics htopics)).trans
        htopics
    | ending _ hstep => exact (hending hstep :)
    | _ => exact htopics
  | heartbeat hheartbeat =>
    cases hheartbeat with
    | ending _ hstep => exact (hending hstep :)
    | _ => exact htopics
  | sending hsend => cases hsend <;> exact htopics
  | closing hclose =>
    cases hclose with
    | @abort t => cases t <;> exact htopics
    | ending _ hstep | ended _ hstep => exact (hending hstep :)
    | _ => exact htopics
  | subscribe topic hlive =>
    rw [isLive, h.closed] at hlive
    cases hlive
  | unsubscribe topic => exact (congrArg (KeyMap.erase · topic) htopics).trans rfl
  | receive hreceive => exact (Subscriptions.receive?_spec hreceive).2.2.1.trans htopics
  | dropHandle =>
    obtain ⟨_, _, habort⟩ := abort_frame c.tasks { c with cancelled := true, tasks := [] }
    rw [habort]
    exact htopics
  | _ => exact htopics

theorem Tidy.of_next? (h : Tidy c) (hcloses : Closes c) (hadmits : c.admits .await m = true)
    (hnext : c.next? m = some (c', events)) (hheld : m = .dropHandle → c.state = .closed)
    (hapart : c'.ClosesApart) : Tidy c' := by
  cases h with
  | steady h => exact .steady (h.of_next? hadmits hnext)
  | lone h =>
    have hnot : m ≠ .dropHandle := fun hm => h.not_closed (hheld hm)
    exact (h.of_next? hadmits hnext hnot hapart).elim .lone .silent
  | silent h => exact .silent (h.of_transition hcloses (.of_next? hnext))

theorem tidy_opened (address : String) (settings : StreamSettings) (now : Instant) (epoch : Int) :
    Tidy (opened address settings now epoch) := by
  cases hreconnect : settings.reconnect with
  | false => exact .steady (steady_opened hreconnect)
  | true =>
    refine .lone ⟨Nat.zero_le 1, hreconnect, seenTo_opened address settings now epoch,
      by simp [opened], fun e hp => ?_, fun k e hp => ?_, fun _ => rfl, fun k hp => ?_⟩
    · unfold opened at hp
      cases hinterval : settings.pingInterval? <;> rw [hinterval] at hp <;> cases hp
    · cases hp
    · cases hp

/-- No topic is left of a stream once it is closed, if calls to close it follow each other. -/
theorem Tidy.silent_of_closed (h : Tidy c) (hclosed : c.state = .closed) : Silent c := by
  cases h with
  | steady h => exact ⟨hclosed, (h.sound.closed hclosed).2.1⟩
  | lone h => exact absurd hclosed h.not_closed
  | silent h => exact h

/-- Nothing is offered any more to the channels of a stream without a topic. -/
theorem Silent.isSubscribed (h : Silent c) (channel : ChannelId) :
    c.subscriptions.isSubscribed channel = false := by
  rw [Subscriptions.isSubscribed, h.topics]
  rfl

end Uplink.Stream.Connection
