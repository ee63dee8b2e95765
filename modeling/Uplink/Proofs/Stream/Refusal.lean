import Uplink.Proofs.Registry.Turn
import Uplink.Proofs.Stream.Redial

/-! What a stream refuses once it closes. A call to close cancels the stream first, then waits for
the background tasks, and marks the stream only after that: in between the stream is cancelled and
still takes subscriptions and messages. Once no call to close is on its way to the mark, a cancelled
stream is live no more and refuses them all. -/

namespace Uplink.Stream

/-- The tasks that a call to close has yet to wait for. -/
def ClosePoint.tasks : ClosePoint → List Task
  | .looking tasks | .cancelling tasks | .joining tasks _ => tasks
  | _ => []

/-- Whether a call to close has cancelled the stream and has not marked it yet. -/
def ClosePoint.precedesMark : ClosePoint → Bool
  | .joining .. | .ending .checking | .ending .marking => true
  | _ => false

namespace Connection

variable {c c' d : Connection} {t : Task} {m : Move} {n k : CallId} {sig : Signal}
  {history events : List Event} {e : Ending} {next : Option Ending} {p p' : ClosePoint}

/-- Some call to close sees to the reader's end, unless it is aborted already. -/
structure SeenTo (c : Connection) : Prop where
  aborted : c.reader.aborted = true → c.isQuiet .reader = true
  taken : ∀ n p, c.closePoint? n = some p → p ≠ .taking → c.tasks = []
  kept : c.reader.aborted = false → c.reader.point ≠ .finished →
    .reader ∈ c.tasks ∨ ∃ n p, c.closePoint? n = some p ∧ .reader ∈ p.tasks

/-- A stream that is cancelled and still live, or comes to be live, has a call to close that goes on
to mark it. -/
structure Marks (c : Connection) : Prop where
  redials : c.reader.point = .retiring ∨ c.reader.point.isReplacing = true →
    c.settings.reconnect = true
  gaveUp : ∀ e, c.heartbeat.point = .ending e → c.settings.reconnect = false
  joined : c.cancelled = true → c.reader.point.reopens = true → c.reader.aborted = false →
    ∃ n tasks since, c.closePoint? n = some (.joining tasks since) ∧ .reader ∈ tasks
  marked : c.isLive = true → c.cancelled = true →
    ∃ n p, c.closePoint? n = some p ∧ p.precedesMark = true

/-! ### The reader's end -/

/-- A step of a call to close from one point to another. -/
theorem SeenTo.closeAt (h : SeenTo c) (hp : c.closePoint? n = some p)
    (hcloses : d.closes = c.closes) (hquiet : c.isQuiet .reader = true)
    (hpoint : d.reader.point = c.reader.point) (hparked : d.reader.parked = c.reader.parked)
    (haborted : c.reader.aborted = true → d.reader.aborted = true) (htasks : d.tasks = [])
    (hkeep : d.reader.aborted = false → c.reader.point ≠ .finished →
      .reader ∈ c.tasks ∨ .reader ∈ p.tasks → .reader ∈ p'.tasks) : SeenTo (d.closeAt n p') := by
  have hd : d.closePoint? n = some p := by rw [closePoint?, hcloses]; exact hp
  have hother : ∀ k, k ≠ n → (d.closeAt n p').closePoint? k = c.closePoint? k := by
    intro k hk
    rw [closePoint?_closeAt hd, if_neg hk, closePoint?, hcloses]
    rfl
  refine ⟨fun _ => ?_, fun _ _ _ _ => htasks, fun hnot hrunning => ?_⟩
  · rw [isQuiet_of_standing? (standing?_reader rfl)] at hquiet ⊢
    rw [show (d.closeAt n p').reader = d.reader from rfl, hpoint, hparked]
    exact hquiet
  · have hself : (d.closeAt n p').closePoint? n = some p' := by
      rw [closePoint?_closeAt hd, if_pos rfl]
    have hnot' : c.reader.aborted = false := by
      rw [← Bool.not_eq_true]
      intro hyes
      cases (haborted hyes).symm.trans hnot
    have hrunning' : c.reader.point ≠ .finished := hpoint ▸ hrunning
    rcases h.kept hnot' hrunning' with hmem | ⟨k, q, hq, hmem⟩
    · exact .inr ⟨n, p', hself, hkeep hnot hrunning' (.inl hmem)⟩
    · by_cases hk : k = n
      · subst hk
        rw [hp] at hq
        cases hq
        exact .inr ⟨k, p', hself, hkeep hnot hrunning' (.inr hmem)⟩
      · exact .inr ⟨k, q, (hother k hk).trans hq, hmem⟩

theorem hasFinished_reader (h : c.hasFinished .reader = true) : c.reader.point = .finished := by
  simp only [hasFinished] at h
  split at h
  · assumption
  · cases h

theorem SeenTo.of_closeStep (h : SeenTo c) (hquiet : c.isQuiet .reader = true)
    (hstep : CloseStep c n c' events) : SeenTo c' := by
  -- Whatever a call to close had not yet taken on is taken on by this one.
  have hnone : ∀ {p}, c.closePoint? n = some p → p ≠ .taking → ¬Task.reader ∈ c.tasks := by
    intro p hp hne hmem
    rw [h.taken n p hp hne] at hmem
    cases hmem
  cases hstep with
  | take hp =>
    exact h.closeAt hp rfl hquiet rfl rfl id rfl fun _ _ hmem => hmem.resolve_right List.not_mem_nil
  | leave hp =>
    exact h.closeAt hp rfl hquiet rfl rfl id (h.taken _ _ hp (by simp)) fun _ _ hmem =>
      absurd (hmem.resolve_left (hnone hp (by simp))) List.not_mem_nil
  | begin hp | cancel hp =>
    exact h.closeAt hp rfl hquiet rfl rfl id (h.taken _ _ hp (by simp)) fun _ _ hmem =>
      hmem.resolve_left (hnone hp (by simp))
  | joined hp =>
    exact h.closeAt hp rfl hquiet rfl rfl id (h.taken _ _ hp (by simp)) fun _ _ hmem =>
      absurd (hmem.resolve_left (hnone hp (by simp))) List.not_mem_nil
  | @join t rest since hp hfinished =>
    refine h.closeAt hp rfl hquiet rfl rfl id (h.taken _ _ hp (by simp)) fun _ hrunning hmem => ?_
    rcases List.mem_cons.mp (hmem.resolve_left (hnone hp (by simp))) with rfl | hrest
    · exact absurd (hasFinished_reader hfinished) hrunning
    · exact hrest
  | @abort t rest since hp =>
    have htasks := h.taken _ _ hp (by simp)
    have hkeep : (c.abort t).reader.aborted = false → c.reader.point ≠ .finished →
        .reader ∈ c.tasks ∨ .reader ∈ (ClosePoint.joining (t :: rest) since).tasks →
        .reader ∈ (ClosePoint.joining rest c.now).tasks := by
      intro hnot _ hmem
      rcases List.mem_cons.mp (hmem.resolve_left (hnone hp (by simp))) with rfl | hrest
      · cases hnot
      · exact hrest
    cases t with
    | reader => exact h.closeAt hp rfl hquiet rfl rfl (fun _ => rfl) htasks hkeep
    | _ => exact h.closeAt hp rfl hquiet rfl rfl id htasks hkeep
  | ending hp hending | ended hp hending =>
    have htasks := h.taken _ _ hp (by simp)
    obtain ⟨_, _, _, _, _, rfl⟩ := hending.frame
    exact h.closeAt hp rfl hquiet rfl rfl id htasks fun _ _ hmem =>
      absurd (hmem.resolve_left (hnone hp (by simp))) List.not_mem_nil

/-- What leaves all calls to close and the marks of the reader as they are. -/
theorem SeenTo.same (h : SeenTo c) (hcloses : ∀ n, c'.closePoint? n = c.closePoint? n)
    (htasks : c'.tasks = c.tasks) (haborted : c'.reader.aborted = c.reader.aborted)
    (hquiet : c.reader.aborted = true → c'.isQuiet .reader = true)
    (hrunning : c'.reader.point ≠ .finished → c.reader.point ≠ .finished) : SeenTo c' where
  aborted := fun hyes => hquiet (haborted ▸ hyes)
  taken := by
    intro n p hp hne
    rw [htasks]
    exact h.taken n p (hcloses n ▸ hp) hne
  kept := by
    intro hnot hnow
    rw [haborted] at hnot
    rw [htasks]
    rcases h.kept hnot (hrunning hnow) with hmem | ⟨n, p, hp, hmem⟩
    · exact .inl hmem
    · exact .inr ⟨n, p, (hcloses n).trans hp, hmem⟩

/-- A step of the reader changes no call to close, and no mark. -/
theorem ReaderStep.frame (h : ReaderStep c c' events) :
    c'.closes = c.closes ∧ c'.tasks = c.tasks ∧ c'.reader.aborted = c.reader.aborted ∧
      c.reader.point ≠ .finished := by
  cases h with
  | read f hp => cases f <;> exact ⟨rfl, rfl, rfl, by simp [hp]⟩
  | pong _ hp => exact ⟨rfl, rfl, rfl, by simp [hp]⟩
  | ending hp hending =>
    obtain ⟨_, _, _, _, _, rfl⟩ := hending.frame
    exact ⟨rfl, rfl, rfl, by simp [hp]⟩
  | _ => exact ⟨rfl, rfl, rfl, by simp [‹c.reader.point = _›]⟩

theorem HeartbeatStep.frame (h : HeartbeatStep c c' events) :
    c'.closes = c.closes ∧ c'.tasks = c.tasks ∧ c'.reader = c.reader := by
  cases h with
  | ending _ hending =>
    obtain ⟨_, _, _, _, _, rfl⟩ := hending.frame
    exact ⟨rfl, rfl, rfl⟩
  | _ => exact ⟨rfl, rfl, rfl⟩

/-- A parked task that is to be aborted takes no step. -/
theorem not_parked_of_step? (h : c.step? t sig = some (c', events))
    (haborted : c.isAborted t = true) :
    c.isParked t = false := by
  unfold step? at h
  split at h
  · cases h
  · next hnot => simpa [haborted] using hnot

theorem closePoint?_park : (c.park t).closePoint? n = c.closePoint? n := by
  cases t with
  | close k =>
    simp only [closePoint?, park, List.getElem?_modify]
    cases c.closes[n]? with
    | none => rfl
    | some thread => simp only [Option.map_some]; split <;> rfl
  | _ => rfl

theorem closePoint?_start_close :
    ({ c with closes := c.closes ++ [⟨.taking, false, false⟩] } : Connection).closePoint? n =
      if n = c.closes.length then some .taking else c.closePoint? n := by
  unfold closePoint?
  split
  · next hn => rw [hn, List.getElem?_concat_length]; rfl
  · next hn => rw [getElem?_append_of_ne hn]

theorem lt_length_of_closePoint? (h : c.closePoint? n = some p) : n < c.closes.length := by
  obtain ⟨thread, hthread, -⟩ := Option.map_eq_some_iff.mp h
  exact (List.getElem?_eq_some_iff.mp hthread).1

/-- A reader that is to be aborted takes no step any more. -/
theorem SeenTo.not_aborted (h : SeenTo c) (hstep : c.step? .reader sig = some (c', events))
    (hrunning : c.reader.point ≠ .finished) : c.reader.aborted = false := by
  rw [← Bool.not_eq_true]
  intro haborted
  have hparked := not_parked_of_step? hstep haborted
  have hquiet := h.aborted haborted
  rw [isQuiet, hparked, Bool.or_false] at hquiet
  exact hrunning (hasFinished_reader hquiet)

/-- As long as the handle is held, every admitted move leaves the reader seen to. -/
theorem SeenTo.of_next? (h : SeenTo c) (hadmits : c.admits .await m = true)
    (hnext : c.next? m = some (c', events)) (hheld : m ≠ .dropHandle) : SeenTo c' := by
  have hstep := Transition.of_next? hnext
  have hothers := (hstep.concerns hadmits).others
  cases hstep with
  | @suspend t =>
    have hquiet : c.isQuiet .reader = true → ∀ turn,
        (({ c with turn }).park t).isQuiet .reader = true := by
      intro hquiet turn
      rw [isQuiet, Bool.or_eq_true] at hquiet ⊢
      cases t with
      | reader => exact .inr rfl
      | _ => exact hquiet
    refine h.same (fun n => closePoint?_park) ?_ ?_ (fun haborted => hquiet (h.aborted haborted) _)
      ?_ <;> cases t <;> first | rfl | exact id
  | reader hreader =>
    obtain ⟨hcloses, htasks, haborted, hrunning⟩ := hreader.frame
    refine h.same (fun n => by rw [closePoint?, hcloses]; rfl) htasks haborted (fun hyes => ?_)
      fun _ => hrunning
    cases (h.not_aborted hnext hrunning).symm.trans hyes
  | heartbeat hheartbeat =>
    obtain ⟨hcloses, htasks, hreader⟩ := hheartbeat.frame
    refine h.same (fun n => by rw [closePoint?, hcloses]; rfl) htasks (by rw [hreader])
      (fun haborted => ?_) (by rw [hreader]; exact id)
    have hquiet := h.aborted haborted
    rw [isQuiet, hasFinished, isParked] at hquiet ⊢
    rw [hreader]
    exact hquiet
  | sending hsend =>
    cases hsend <;> exact h.same (fun _ => rfl) rfl rfl h.aborted id
  | closing hclose => exact h.of_closeStep (hothers .reader Task.noConfusion) hclose
  | reapReader => exact h.same (fun _ => rfl) rfl rfl (fun _ => rfl) fun hnow => absurd rfl hnow
  | close =>
    refine ⟨h.aborted, fun n p hp hne => ?_, fun hnot hrunning => ?_⟩
    · rw [closePoint?_start_close] at hp
      split at hp
      · cases hp; exact absurd rfl hne
      · exact h.taken n p hp hne
    · rcases h.kept hnot hrunning with hmem | ⟨n, p, hp, hmem⟩
      · exact .inl hmem
      · refine .inr ⟨n, p, ?_, hmem⟩
        rw [closePoint?_start_close, if_neg (Nat.ne_of_lt (lt_length_of_closePoint? hp)), hp]
  | dropHandle => exact absurd rfl hheld
  | _ => exact h.same (fun _ => rfl) rfl rfl h.aborted id

/-! ### The mark -/

/-- Ending a stream neither makes it live nor cancels it while it is live. -/
theorem EndingStep.live_of_live (h : EndingStep c t e c' next events)
    (hcancelling : e = .cancelling → c.state = .closing) (hlive : c'.isLive = true)
    (hcancelled : c'.cancelled = true) : c.isLive = true ∧ c.cancelled = true := by
  cases h with
  | mark | finish => cases hlive
  | cancel =>
    rw [isLive, show c.state = .closing from hcancelling rfl] at hlive
    cases hlive
  | _ => exact ⟨hlive, hcancelled⟩

theorem ReaderPoint.replaces_of_reopens {p : ReaderPoint} (h : p.reopens = true) :
    p.isReplacing = true := by
  cases p <;> first | rfl | cases h

/-- When a call to close cancels the stream, some call waits for a reader that has a new write half
in hand: this one, or one that has taken on the reader before. -/
theorem SeenTo.joins_of_cancel (h : SeenTo c) (hturn : InTurn c)
    (hothers : ∀ u, u ≠ .close n → c.isQuiet u = true) {tasks : List Task}
    (hp : c.closePoint? n = some (.cancelling tasks)) (hreopens : c.reader.point.reopens = true)
    (hnot : c.reader.aborted = false) : ∃ k rest since,
      (({ c with cancelled := true }).closeAt n (.joining tasks c.now)).closePoint? k =
        some (.joining rest since) ∧ .reader ∈ rest := by
  have hd : ({ c with cancelled := true } : Connection).closePoint? n =
      some (.cancelling tasks) := hp
  have hrunning : c.reader.point ≠ .finished := fun hfinished => by
    rw [hfinished] at hreopens
    cases hreopens
  rcases h.kept hnot hrunning with hmem | ⟨k, q, hq, hmem⟩
  · rw [h.taken n _ hp ClosePoint.noConfusion] at hmem
    cases hmem
  · by_cases hk : k = n
    · subst hk
      cases hp.symm.trans hq
      exact ⟨k, tasks, c.now, by rw [closePoint?_closeAt hd, if_pos rfl], hmem⟩
    · have hkept : (({ c with cancelled := true }).closeAt n (.joining tasks c.now)).closePoint? k =
          some q := by
        rw [closePoint?_closeAt hd, if_neg hk]
        exact hq
      obtain ⟨parked, hs⟩ := standing?_of_closePoint? hq
      have hquiet := hothers (.close k) fun heq => hk (Task.close.inj heq)
      -- Among the points where a call to close still has tasks, it may wait at one only.
      cases q with
      | joining rest since => exact ⟨k, rest, since, hkept, hmem⟩
      | looking | cancelling => cases hturn.mayPark_of_quiet hquiet hs rfl
      | _ => cases hmem

namespace Marks

variable (h : Marks c)
include h

/-- What leaves all calls to close where they are. -/
theorem same (hsettings : c'.settings = c.settings)
    (hcloses : ∀ n, c'.closePoint? n = c.closePoint? n)
    (hredials : c'.reader.point = .retiring ∨ c'.reader.point.isReplacing = true →
      c.settings.reconnect = true)
    (hgaveUp : ∀ e, c'.heartbeat.point = .ending e → c.settings.reconnect = false)
    (hjoined : c'.cancelled = true → c'.reader.point.reopens = true → c'.reader.aborted = false →
      c.cancelled = true ∧ c.reader.point.reopens = true ∧ c.reader.aborted = false)
    (hmarked : c'.isLive = true → c'.cancelled = true →
      (c.isLive = true ∨ c.reader.point.reopens = true ∧ c.reader.aborted = false) ∧
        c.cancelled = true) : Marks c' where
  redials := hsettings ▸ hredials
  gaveUp := hsettings ▸ hgaveUp
  joined := by
    intro hcancelled hreopens haborted
    obtain ⟨hwas, hreopened, hnot⟩ := hjoined hcancelled hreopens haborted
    obtain ⟨n, tasks, since, hp, hmem⟩ := h.joined hwas hreopened hnot
    exact ⟨n, tasks, since, (hcloses n).trans hp, hmem⟩
  marked := by
    intro hlive hcancelled
    obtain ⟨hwas | ⟨hreopens, hnot⟩, hbefore⟩ := hmarked hlive hcancelled
    · obtain ⟨n, p, hp, hprecedes⟩ := h.marked hwas hbefore
      exact ⟨n, p, (hcloses n).trans hp, hprecedes⟩
    · obtain ⟨n, tasks, since, hp, -⟩ := h.joined hbefore hreopens hnot
      exact ⟨n, _, (hcloses n).trans hp, rfl⟩

theorem of_readerStep (hcloses : Closes c) (hnot : c.reader.aborted = false)
    (hsettings : c'.settings = c.settings) (hstep : ReaderStep c c' events) : Marks c' := by
  obtain ⟨hframe, -, haborted, -⟩ := hstep.frame
  have hsame : ∀ n, c'.closePoint? n = c.closePoint? n := fun n => by rw [closePoint?, hframe]; rfl
  have hheartbeat := (heartbeat_of_standing? (hstep.standing? Task.noConfusion)).1
  have hkeep := h.same hsettings hsame
  rw [hheartbeat, haborted] at hkeep
  -- The reader comes to a point without a socket to replace.
  have hcalm : c'.reader.point ≠ .retiring ∧ c'.reader.point.isReplacing = false →
      (c'.isLive = true → c'.cancelled = true → c.isLive = true ∧ c.cancelled = true) →
      Marks c' := by
    rintro ⟨hretiring, hreplacing⟩ hlive
    refine hkeep (fun hp => ?_) h.gaveUp (fun _ hreopens _ => ?_) fun hl hc =>
      ⟨.inl (hlive hl hc).1, (hlive hl hc).2⟩
    · rcases hp with hp | hp
      · exact absurd hp hretiring
      · cases hreplacing.symm.trans hp
    · cases hreplacing.symm.trans (ReaderPoint.replaces_of_reopens hreopens)
  cases hstep with
  | read f =>
    cases f <;>
      exact hcalm ⟨ReaderPoint.noConfusion, rfl⟩ fun hlive hcancelled => ⟨hlive, hcancelled⟩
  | @offer v =>
    refine hcalm ?_ fun hlive hcancelled => ⟨hlive, hcancelled⟩
    rw [point_readerAt]
    cases Subscriptions.gone (c.offerAll v).2 <;> exact ⟨ReaderPoint.noConfusion, rfl⟩
  | stop | wake | fail | finish | forget | skip | answer | pong | loseForGood | stopResting
  | stopRedialing | abandon =>
    exact hcalm ⟨ReaderPoint.noConfusion, rfl⟩ fun hlive hcancelled => ⟨hlive, hcancelled⟩
  | @ending e d next events hp hending =>
    refine hcalm ?_ fun hlive hcancelled => hending.live_of_live (fun he => ?_) hlive hcancelled
    · cases next <;> exact ⟨ReaderPoint.noConfusion, rfl⟩
    · subst he
      exact hcloses.cancelling _ _ _ (standing?_reader hp) rfl
  | lose hp hreconnect =>
    refine hkeep (fun _ => hreconnect) h.gaveUp (fun _ => Bool.noConfusion) fun _ hcancelled => ?_
    cases (hcloses.losing _ hp).symm.trans hcancelled
  | pass hp | retire hp =>
    exact hkeep (fun _ => h.redials (.inl hp)) h.gaveUp (fun _ => Bool.noConfusion)
      fun hlive hcancelled => ⟨.inl hlive, hcancelled⟩
  | discard hp | rest hp | redial hp | dialFailed hp =>
    exact hkeep (fun _ => h.redials (.inr (by rw [hp]; rfl))) h.gaveUp (fun _ => Bool.noConfusion)
      fun hlive hcancelled => ⟨.inl hlive, hcancelled⟩
  | dialed hp hnow =>
    refine hkeep (fun _ => h.redials (.inr (by rw [hp]; rfl))) h.gaveUp
      (fun hcancelled => ?_) fun hlive hcancelled => ⟨.inl hlive, hcancelled⟩
    cases hnow.symm.trans hcancelled
  | place hp =>
    exact hkeep (fun _ => h.redials (.inr (by rw [hp]; rfl))) h.gaveUp
      (fun hcancelled _ _ => ⟨hcancelled, by rw [hp]; rfl, hnot⟩)
      fun hlive hcancelled => ⟨.inl hlive, hcancelled⟩
  | reopen hp =>
    refine hkeep (fun hnow => ?_) h.gaveUp (fun _ => Bool.noConfusion)
      fun _ hcancelled => ⟨.inr ⟨by rw [hp]; rfl, hnot⟩, hcancelled⟩
    rcases hnow with hnow | hnow <;> cases hnow

/-- A step of the heartbeat. -/
theorem of_heartbeatStep (hcloses : Closes c) (hsettings : c'.settings = c.settings)
    (hstep : HeartbeatStep c c' events) : Marks c' := by
  obtain ⟨hframe, -, hreader⟩ := hstep.frame
  have hsame : ∀ n, c'.closePoint? n = c.closePoint? n := fun n => by rw [closePoint?, hframe]; rfl
  have hkeep := h.same hsettings hsame
  rw [hreader] at hkeep
  cases hstep with
  | @ending e d next events hp hending =>
    have hreconnect := h.gaveUp e hp
    refine hkeep h.redials (fun _ _ => hreconnect) (fun _ hreopens _ => ?_)
      fun hlive hcancelled => ?_
    -- A stream that ends for good when its socket is lost does not dial again.
    · have hagain := h.redials (.inr (ReaderPoint.replaces_of_reopens hreopens))
      cases hreconnect.symm.trans hagain
    · have hs := standing?_heartbeat hp
      have hwas := hending.live_of_live (fun he => hcloses.cancelling _ _ _ hs (by rw [he]; rfl))
        hlive hcancelled
      exact ⟨.inl hwas.1, hwas.2⟩
  | giveUp _ hreconnect =>
    exact hkeep h.redials (fun _ _ => hreconnect) (fun hc hr ha => ⟨hc, hr, ha⟩)
      fun hlive hcancelled => ⟨.inl hlive, hcancelled⟩
  | _ =>
    exact hkeep h.redials (fun _ => HeartbeatPoint.noConfusion) (fun hc hr ha => ⟨hc, hr, ha⟩)
      fun hlive hcancelled => ⟨.inl hlive, hcancelled⟩

/-- A step of a call to close from one point to another. -/
theorem closeAt (hp : c.closePoint? n = some p) (hcloses : d.closes = c.closes)
    (hsettings : d.settings = c.settings) (hpoint : d.reader.point = c.reader.point)
    (hheartbeat : d.heartbeat.point = c.heartbeat.point)
    (haborted : d.reader.aborted = false → c.reader.aborted = false)
    (hjoined : d.cancelled = true → c.reader.point.reopens = true → d.reader.aborted = false →
      (∃ k tasks since, (d.closeAt n p').closePoint? k = some (.joining tasks since) ∧
        .reader ∈ tasks) ∨
      c.cancelled = true ∧ ∀ tasks since, p = .joining tasks since → .reader ∈ tasks →
        ∃ rest since, p' = .joining rest since ∧ .reader ∈ rest)
    (hmarked : d.isLive = true → d.cancelled = true → p'.precedesMark = true ∨
      p.precedesMark = false ∧ c.isLive = true ∧ c.cancelled = true) : Marks (d.closeAt n p') := by
  have hd : d.closePoint? n = some p := by rw [closePoint?, hcloses]; exact hp
  have hself : (d.closeAt n p').closePoint? n = some p' := by
    rw [closePoint?_closeAt hd, if_pos rfl]
  have hother : ∀ k, k ≠ n → (d.closeAt n p').closePoint? k = c.closePoint? k := by
    intro k hk
    rw [closePoint?_closeAt hd, if_neg hk, closePoint?, hcloses]
    rfl
  have hreader : (d.closeAt n p').reader.point = c.reader.point := hpoint
  have hbeats : (d.closeAt n p').heartbeat.point = c.heartbeat.point := hheartbeat
  have hsame : (d.closeAt n p').settings = c.settings := hsettings
  refine ⟨?_, ?_, fun hcancelled hreopens hnot => ?_, fun hlive hcancelled => ?_⟩
  · rw [hreader, hsame]; exact h.redials
  · rw [hbeats, hsame]; exact h.gaveUp
  · rw [hreader] at hreopens
    rcases hjoined hcancelled hreopens hnot with hnow | ⟨hwas, hgoes⟩
    · exact hnow
    · obtain ⟨k, tasks, since, hk, hmem⟩ := h.joined hwas hreopens (haborted hnot)
      by_cases hkn : k = n
      · subst hkn
        obtain ⟨rest, since', rfl, hrest⟩ :=
          hgoes tasks since (Option.some.inj (hp.symm.trans hk)) hmem
        exact ⟨k, rest, since', hself, hrest⟩
      · exact ⟨k, tasks, since, (hother k hkn).trans hk, hmem⟩
  · rcases hmarked hlive hcancelled with hnow | ⟨hnot, hwas, hbefore⟩
    · exact ⟨n, p', hself, hnow⟩
    · obtain ⟨k, q, hq, hprecedes⟩ := h.marked hwas hbefore
      by_cases hkn : k = n
      · subst hkn
        cases hp.symm.trans hq
        cases hnot.symm.trans hprecedes
      · exact ⟨k, q, (hother k hkn).trans hq, hprecedes⟩

theorem of_closeStep (hcloses : Closes c) (hseen : SeenTo c) (hturn : InTurn c)
    (hothers : ∀ u, u ≠ .close n → c.isQuiet u = true) (hstep : CloseStep c n c' events) :
    Marks c' := by
  cases hstep with
  | take hp | leave hp | begin hp =>
    exact h.closeAt hp rfl rfl rfl rfl id
      (fun hc _ _ => .inr ⟨hc, fun _ _ => ClosePoint.noConfusion⟩)
      fun hlive hcancelled => .inr ⟨rfl, hlive, hcancelled⟩
  | cancel hp =>
    exact h.closeAt hp rfl rfl rfl rfl id
      (fun _ hreopens hnot => .inl (hseen.joins_of_cancel hturn hothers hp hreopens hnot))
      fun _ _ => .inl rfl
  | joined hp =>
    refine h.closeAt hp rfl rfl rfl rfl id (fun hc _ _ => .inr ⟨hc, fun tasks since heq hmem => ?_⟩)
      fun _ _ => .inl rfl
    cases heq
    cases hmem
  | @join t rest since hp hfinished =>
    refine h.closeAt hp rfl rfl rfl rfl id
      (fun hc hreopens _ => .inr ⟨hc, fun tasks since heq hmem => ?_⟩) fun _ _ => .inl rfl
    cases heq
    rcases List.mem_cons.mp hmem with rfl | hrest
    · rw [hasFinished_reader hfinished] at hreopens
      cases hreopens
    · exact ⟨rest, c.now, rfl, hrest⟩
  | @abort t rest since hp =>
    have hgoes : (c.abort t).reader.aborted = false → ∀ tasks since',
        ClosePoint.joining (t :: rest) since = .joining tasks since' → .reader ∈ tasks →
          ∃ rest' since', ClosePoint.joining rest c.now = .joining rest' since' ∧
            .reader ∈ rest' := by
      intro hnot tasks since' heq hmem
      cases heq
      rcases List.mem_cons.mp hmem with rfl | hrest
      · cases hnot
      · exact ⟨rest, c.now, rfl, hrest⟩
    cases t with
    | reader =>
      exact h.closeAt hp rfl rfl rfl rfl Bool.noConfusion
        (fun hc _ hnot => .inr ⟨hc, hgoes hnot⟩) fun _ _ => .inl rfl
    | _ =>
      exact h.closeAt hp rfl rfl rfl rfl id (fun hc _ hnot => .inr ⟨hc, hgoes hnot⟩)
        fun _ _ => .inl rfl
  | @ending e e' d events hp hending =>
    obtain ⟨parked, hs⟩ := standing?_of_closePoint? hp
    have hwas : c.cancelled = true := hcloses.cancelled _ _ _ hs rfl
    have hmarked : d.isLive = true → d.cancelled = true →
        (ClosePoint.ending e').precedesMark = true ∨
          (ClosePoint.ending e).precedesMark = false ∧ c.isLive = true ∧ c.cancelled = true := by
      intro hlive hcancelled
      obtain ⟨hlive', -⟩ := hending.live_of_live
        (fun he => hcloses.cancelling _ _ _ hs (by rw [he]; rfl)) hlive hcancelled
      cases hending with
      | begin => exact .inl rfl
      | mark => cases hlive
      | _ => exact .inr ⟨rfl, hlive', hwas⟩
    obtain ⟨_, _, _, _, _, rfl⟩ := hending.frame
    exact h.closeAt hp rfl rfl rfl rfl id
      (fun _ _ _ => .inr ⟨hwas, fun _ _ => ClosePoint.noConfusion⟩) hmarked
  | @ended e d events hp hending =>
    have hdead : d.isLive = false := by
      cases hending with
      | alreadyClosed hclosed => rw [isLive, hclosed]; rfl
      | finish => rfl
    obtain ⟨parked, hs⟩ := standing?_of_closePoint? hp
    have hwas : c.cancelled = true := hcloses.cancelled _ _ _ hs rfl
    obtain ⟨_, _, _, _, _, rfl⟩ := hending.frame
    refine h.closeAt hp rfl rfl rfl rfl id
      (fun _ _ _ => .inr ⟨hwas, fun _ _ => ClosePoint.noConfusion⟩) fun hlive => ?_
    cases hdead.symm.trans hlive

/-- As long as the handle is held, every admitted move keeps it so. -/
theorem of_next? (hseen : SeenTo c) (hcloses : Closes c) (hturn : InTurn c)
    (hadmits : c.admits .await m = true) (hnext : c.next? m = some (c', events))
    (hheld : m ≠ .dropHandle) : Marks c' := by
  have hstep := Transition.of_next? hnext
  have hothers := (hstep.concerns hadmits).others
  have hsettings := hstep.settings_eq
  cases hstep with
  | @suspend t =>
    have hframe : ∀ d : Connection, d = ({ c with turn := if c.awaitsTurn t then c.turn.join t else
        c.turn }).park t → d.reader.point = c.reader.point ∧ d.reader.aborted = c.reader.aborted ∧
        d.heartbeat.point = c.heartbeat.point ∧ d.cancelled = c.cancelled ∧
        d.isLive = c.isLive := by
      rintro d rfl
      cases t <;> exact ⟨rfl, rfl, rfl, rfl, rfl⟩
    obtain ⟨hreader, haborted, hheartbeat, hcancelled, hlive⟩ := hframe _ rfl
    refine h.same hsettings (fun _ => closePoint?_park) ?_ ?_ ?_ ?_
    · rw [hreader]; exact h.redials
    · rw [hheartbeat]; exact h.gaveUp
    · rw [hreader, haborted, hcancelled]; exact fun hc hr ha => ⟨hc, hr, ha⟩
    · rw [hlive, hcancelled]; exact fun hl hc => ⟨.inl hl, hc⟩
  | reader hreader =>
    exact h.of_readerStep hcloses (hseen.not_aborted hnext hreader.frame.2.2.2) hsettings hreader
  | heartbeat hheartbeat => exact h.of_heartbeatStep hcloses hsettings hheartbeat
  | sending hsend =>
    cases hsend <;> exact h.same hsettings (fun _ => rfl) h.redials h.gaveUp
      (fun hc hr ha => ⟨hc, hr, ha⟩) fun hl hc => ⟨.inl hl, hc⟩
  | closing hclose => exact h.of_closeStep hcloses hseen hturn hothers hclose
  | reapReader =>
    refine h.same hsettings (fun _ => rfl) (fun hnow => ?_) h.gaveUp (fun _ => Bool.noConfusion)
      fun hl hc => ⟨.inl hl, hc⟩
    rcases hnow with hnow | hnow <;> cases hnow
  | reapHeartbeat =>
    exact h.same hsettings (fun _ => rfl) h.redials (fun _ => HeartbeatPoint.noConfusion)
      (fun hc hr ha => ⟨hc, hr, ha⟩) fun hl hc => ⟨.inl hl, hc⟩
  | close =>
    have hkeep : ∀ {n p}, c.closePoint? n = some p → ({ c with
        closes := c.closes ++ [⟨.taking, false, false⟩] } : Connection).closePoint? n = some p := by
      intro n p hp
      rw [closePoint?_start_close, if_neg (Nat.ne_of_lt (lt_length_of_closePoint? hp)), hp]
    refine ⟨h.redials, h.gaveUp, fun hc hr ha => ?_, fun hl hc => ?_⟩
    · obtain ⟨n, tasks, since, hp, hmem⟩ := h.joined hc hr ha
      exact ⟨n, tasks, since, hkeep hp, hmem⟩
    · obtain ⟨n, p, hp, hprecedes⟩ := h.marked hl hc
      exact ⟨n, p, hkeep hp, hprecedes⟩
  | dropHandle => exact absurd rfl hheld
  | _ =>
    exact h.same hsettings (fun _ => rfl) h.redials h.gaveUp (fun hc hr ha => ⟨hc, hr, ha⟩)
      fun hl hc => ⟨.inl hl, hc⟩

end Marks

theorem seenTo_opened (address : String) (settings : StreamSettings) (now : Instant)
    (epoch : Int) : SeenTo (opened address settings now epoch) := by
  refine ⟨Bool.noConfusion, fun n p hp => ?_, fun _ _ => .inl ?_⟩
  · cases hp
  · unfold opened
    cases settings.pingInterval? <;> exact List.mem_cons_self

theorem marks_opened (address : String) (settings : StreamSettings) (now : Instant)
    (epoch : Int) : Marks (opened address settings now epoch) := by
  refine ⟨fun hp => ?_, fun e hp => ?_, fun _ => Bool.noConfusion, fun _ => Bool.noConfusion⟩
  · rcases hp with hp | hp <;> cases hp
  · unfold opened at hp
    cases hinterval : settings.pingInterval? <;> rw [hinterval] at hp <;> cases hp

/-- In every run in which the handle is held, the reader is seen to and calls to close go on to mark
the stream. -/
theorem Reaches.marks {past : List Event} (h : Reaches .await d past c history) (hturn : InTurn d)
    (hcloses : Closes d) (hseen : SeenTo d) (hmarks : Marks d)
    (hheld : .handleDropped ∉ history) : SeenTo c ∧ Marks c := by
  induction h with
  | refl => exact ⟨hseen, hmarks⟩
  | @move c₁ c₂ history events m hbefore hadmits hnext ih =>
    obtain ⟨hseen, hmarks⟩ := ih fun hmem => hheld (List.mem_append_left _ hmem)
    have hm : m ≠ .dropHandle := by
      rintro rfl
      cases hnext
      exact hheld (by simp)
    exact ⟨hseen.of_next? hadmits hnext hm, hmarks.of_next? hseen (hbefore.closes hturn hcloses)
      (hbefore.inTurn hturn) hadmits hnext hm⟩

/-- In every run in which the handle is held, a stream that is cancelled, and that no call to close
is about to mark, is live no more: it refuses to subscribe and to send, and no registry gives it to
a caller. -/
theorem Run.refuses_once_marked {address : String} {settings : StreamSettings} {began now : Instant}
    {epoch : Int} (hrun : Run .await address settings began now epoch c history)
    (hheld : .handleDropped ∉ history) (hcancelled : c.cancelled = true)
    (hmarked : ∀ n p, c.closePoint? n = some p → p.precedesMark = false) :
    c.isLive = false ∧
      (∀ topic, c.next? (.subscribe topic) = some (c, [.subscribeRefused topic])) ∧
      (∀ n message, c.sendPoint? n = some (.checking message) →
        c.sendStep n .go = some (c.sendAt n (.returned .notFound), [.sendReturned n .notFound])) ∧
      ∀ (r r' : Registry) id caller move noted, r.connections[id]? = some c →
        r.next? move = some (r', noted) → .returned caller (.connected id) ∉ noted := by
  have hturn := inTurn_opened address settings now epoch
  have hcloses := closes_opened address settings now epoch
  obtain ⟨-, hmarks⟩ := hrun.2.marks hturn hcloses (seenTo_opened address settings now epoch)
    (marks_opened address settings now epoch) hheld
  have hdead : c.isLive = false := by
    rw [← Bool.not_eq_true]
    intro hlive
    obtain ⟨n, p, hp, hprecedes⟩ := hmarks.marked hlive hcancelled
    cases (hmarked n p hp).symm.trans hprecedes
  refine ⟨hdead, fun topic => ?_, fun n message hp => ?_,
    fun r r' id caller move noted hc hnext hmem => ?_⟩
  · simp [next?, Connection.subscribe, hdead]
  · simp [sendStep, hp, hdead, sendReturns]
  · rcases Registry.isLive_of_connected hnext hmem with hlive | hnew
    · rw [Registry.isLive, hc, Option.any_some, hdead] at hlive
      cases hlive
    · rw [hnew, List.getElem?_eq_none (Nat.le_refl _)] at hc
      cases hc

/-- A call to close cancels a stream and waits for the reader. -/
def closingMoves : List Move :=
  [.close, .step (.close 0) .go, .step (.close 0) .go, .step (.close 0) .go,
    .step (.close 0) .suspend]

/-- Once a call to close has marked the stream, it refuses to subscribe. -/
theorem refuses_after_mark : ∃ c history,
    Run .await "ws://host/" { pingIntervalMs := 0 } 0 0 0 c history ∧ c.cancelled = true ∧
      c.isLive = false ∧ c.next? (.subscribe "topic") = some (c, [.subscribeRefused "topic"]) := by
  have hrun : Run .await "ws://host/" { pingIntervalMs := 0 } 0 0 0 _ _ :=
    ⟨Nat.le_refl 0, Reaches.of_follow? (closingMoves ++ [.step .reader .go, .step (.close 0) .go,
      .step (.close 0) .go, .step (.close 0) .go, .step (.close 0) .go]) .refl rfl⟩
  have hrefuses := hrun.refuses_once_marked (by simp [opening, wall, opened]) rfl
  obtain ⟨hdead, hrefused, -⟩ := hrefuses fun n p hp => by
    cases n with
    | zero => cases hp; rfl
    | succ => cases hp
  exact ⟨_, _, hrun, rfl, hdead, hrefused "topic"⟩

/-- A send that is stuck keeps the reader from answering a ping. -/
def stuckMoves : List Move :=
  [.send (.text "long"), .step (.send 0) .go, .step (.send 0) .go, .step (.send 0) .suspend,
    .step .reader (.frame (.ping [])), .step .reader .suspend]

/-- While a call to close waits for a reader that cannot go on, the stream is cancelled and takes a
subscription. -/
theorem subscribes_while_cancelled : ∃ c c' history id,
    Run .punctual "ws://host/" { pingIntervalMs := 0 } 0 0 0 c history ∧
      c.closePoint? 0 = some (.joining [.reader] 0) ∧ c.cancelled = true ∧
      c.admits .punctual (.subscribe "topic") = true ∧
      c.next? (.subscribe "topic") = some (c', [.subscribed "topic" id]) :=
  ⟨_, _, _, _, ⟨Nat.le_refl 0, Reaches.of_follow? (stuckMoves ++ closingMoves) .refl rfl⟩, rfl, rfl,
    rfl, rfl⟩

end Connection

end Uplink.Stream
