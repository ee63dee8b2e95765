import Mathlib.Data.List.TakeWhile
import Uplink.Proofs.Stream.Await

/-! The turn at the write half of a stream whose tasks are interleaved at their waits. Whoever waits
for the turn stands in its queue, and whoever writes holds it; nobody is overtaken, so whoever stood
in the queue before the reader has had the turn when the reader gets it. -/

namespace Uplink.Stream

namespace Turn

variable {α : Type u} [DecidableEq α] {t : Turn α} {a b x : α} {queue : List α}

/-- Those whose turns come before that of `a`. -/
def ahead (t : Turn α) (a : α) : List α := t.queue.takeWhile (· != a)

theorem mem_queue_of_mem_ahead (h : x ∈ t.ahead a) : x ∈ t.queue :=
  List.takeWhile_subset _ h

theorem ahead_of_not_mem (h : a ∉ t.queue) : t.ahead a = t.queue := by
  refine List.takeWhile_eq_self_iff.mpr fun x hx => ?_
  simpa using fun heq : x = a => h (heq ▸ hx)

theorem ahead_of_mayTake (h : t.mayTake a = true) : t.ahead a = [] := by
  simp only [mayTake, Bool.and_eq_true, Bool.or_eq_true, List.isEmpty_iff, beq_iff_eq] at h
  unfold ahead
  rcases h.2 with hempty | hhead
  · rw [hempty, List.takeWhile_nil]
  · obtain ⟨rest, hqueue⟩ := List.head?_eq_some_iff.mp hhead
    simp [hqueue]

/-- Whoever takes the turn while `a` waits was ahead of `a`. -/
theorem mem_ahead_of_mayTake (h : t.mayTake b = true) (ha : a ∈ t.queue) (hne : b ≠ a) :
    b ∈ t.ahead a := by
  simp only [mayTake, Bool.and_eq_true, Bool.or_eq_true, List.isEmpty_iff, beq_iff_eq] at h
  rcases h.2 with hempty | hhead
  · rw [hempty] at ha
    cases ha
  · obtain ⟨rest, hqueue⟩ := List.head?_eq_some_iff.mp hhead
    simp [ahead, hqueue, hne]

theorem holder_of_mayTake (h : t.mayTake a = true) : t.holder = none := by
  simp only [mayTake, Bool.and_eq_true, Option.isNone_iff_eq_none] at h
  exact h.1

theorem mem_queue_join : x ∈ (t.join a).queue ↔ x ∈ t.queue ∨ x = a := by
  unfold join
  split
  · next ha => exact ⟨.inl, fun hx => hx.elim id fun heq => heq ▸ ha⟩
  · simp

theorem nodup_join (h : t.queue.Nodup) : (t.join a).queue.Nodup := by
  unfold join
  split
  · exact h
  · next ha =>
    refine List.nodup_append.mpr ⟨h, by simp, ?_⟩
    rintro x hx y hy rfl
    exact ha (List.mem_singleton.mp hy ▸ hx)

theorem holder_join : (t.join a).holder = t.holder := by
  unfold join
  split <;> rfl

/-- Whoever joins the queue behind `a` is not ahead of `a`. -/
theorem ahead_join_of_mem (h : a ∈ t.queue) : (t.join b).ahead a = t.ahead a := by
  have happend : ∀ queue : List α, a ∈ queue →
      (queue ++ [b]).takeWhile (· != a) = queue.takeWhile (· != a) := by
    intro queue ha
    induction queue with
    | nil => cases ha
    | cons y rest ih =>
      by_cases hya : y = a
      · simp [hya]
      · have hrest : a ∈ rest := (List.mem_cons.mp ha).resolve_left (Ne.symm hya)
        simp [hya, ih hrest]
  unfold join ahead
  split
  · rfl
  · exact happend t.queue h

theorem ahead_join_self : (t.join a).ahead a = t.ahead a := by
  unfold join ahead
  split
  · rfl
  · next h =>
    have hall : ∀ x ∈ t.queue, (x != a) = true := fun x hx => by
      simpa using fun heq : x = a => h (heq ▸ hx)
    rw [List.takeWhile_append_of_pos hall, List.takeWhile_eq_self_iff.mpr hall]
    simp

theorem mem_takeWhile_erase (hne : b ≠ a) (h : x ∈ (queue.erase b).takeWhile (· != a)) :
    x ∈ queue.takeWhile (· != a) := by
  induction queue with
  | nil => exact h
  | cons y rest ih =>
    by_cases hy : y = b
    · subst hy
      rw [List.erase_cons_head] at h
      rw [List.takeWhile_cons_of_pos (by simpa using hne)]
      exact List.mem_cons_of_mem _ h
    · rw [List.erase_cons_tail (by simpa using hy)] at h
      by_cases hya : y = a
      · simp [hya] at h
      · rw [List.takeWhile_cons_of_pos (by simpa using hya)] at h ⊢
        rcases List.mem_cons.mp h with rfl | h
        · exact List.mem_cons_self
        · exact List.mem_cons_of_mem _ (ih h)

theorem mem_takeWhile_erase_of_ne (hne : x ≠ b) (h : x ∈ queue.takeWhile (· != a)) :
    x ∈ (queue.erase b).takeWhile (· != a) := by
  induction queue with
  | nil => exact h
  | cons y rest ih =>
    by_cases hya : y = a
    · simp [hya] at h
    · rw [List.takeWhile_cons_of_pos (by simpa using hya)] at h
      by_cases hy : y = b
      · subst hy
        rw [List.erase_cons_head]
        exact (List.mem_cons.mp h).resolve_left hne
      · rw [List.erase_cons_tail (by simpa using hy),
          List.takeWhile_cons_of_pos (by simpa using hya)]
        rcases List.mem_cons.mp h with rfl | h
        · exact List.mem_cons_self
        · exact List.mem_cons_of_mem _ (ih h)

end Turn

namespace Connection

def Standing.awaitsTurn : Standing → Bool
  | .reader (.answering _) | .reader .retiring | .reader (.placing _)
  | .reader (.ending .waiting) | .heartbeat (.waiting _) | .heartbeat (.ending .waiting)
  | .send (.waiting _) | .close (.ending .waiting) => true
  | _ => false

/-- Whether a task holds the turn while it ends the stream. -/
def holdsTurnEnding : Ending → Bool
  | .saying .. | .shutting .. => true
  | _ => false

def Standing.holdsTurn : Standing → Bool
  | .reader (.ponging ..) | .reader (.discarding ..) | .heartbeat (.pinging ..)
  | .send (.writing ..) => true
  | .reader (.ending e) | .heartbeat (.ending e) | .close (.ending e) => holdsTurnEnding e
  | _ => false

/-- Where a task may be parked. -/
def Standing.mayPark : Standing → Bool
  | .reader .selecting | .reader (.answering _) | .reader (.ponging ..) | .reader .retiring
  | .reader (.discarding ..) | .reader (.resting _) | .reader (.dialing _) | .reader (.placing _)
  | .heartbeat (.ticking _) | .heartbeat (.waiting _) | .heartbeat (.pinging ..)
  | .heartbeat .finished | .send (.waiting _) | .send (.writing ..)
  | .close (.joining (_ :: _) _) => true
  | .reader (.ending e) | .heartbeat (.ending e) | .close (.ending e) => mayRestEnding e
  | _ => false

/-- What a step of a task from one standing to another does with the turn. -/
inductive Handover (turn turn' : Turn Task) (t : Task) (s s' : Standing) : Prop where
  | keep : turn' = turn → s.awaitsTurn = false → s'.holdsTurn = s.holdsTurn →
      Handover turn turn' t s s'
  | take : turn.mayTake t = true → s.awaitsTurn = true → turn' = turn.take t →
      Handover turn turn' t s s'
  | pass : turn.mayTake t = true → s.awaitsTurn = true → turn' = (turn.take t).leave t →
      s'.holdsTurn = false → Handover turn turn' t s s'
  | leave : s.holdsTurn = true → s.awaitsTurn = false → turn' = turn.leave t →
      s'.holdsTurn = false → Handover turn turn' t s s'

/-- What a move means for the one task that it concerns, and for the turn. -/
inductive TaskMove (c c' : Connection) (t : Task) : Prop where
  | step {s s' : Standing} {parked : Bool} : c.standing? t = some (s, parked) →
      c'.standing? t = some (s', false) → Handover c.turn c'.turn t s s' → TaskMove c c' t
  | rest {s : Standing} {parked : Bool} : c.standing? t = some (s, parked) →
      c'.standing? t = some (s, true) → s.mayPark = true →
      c'.turn = (if s.awaitsTurn then c.turn.join t else c.turn) → TaskMove c c' t
  | reap {s s' : Standing} : c.standing? t = some (s, true) → c'.standing? t = some (s', false) →
      s'.isFinished = true → c'.turn = c.turn.leave t → TaskMove c c' t
  | start {s : Standing} : c.standing? t = none → c'.standing? t = some (s, false) →
      s.holdsTurn = false → c'.turn = c.turn → TaskMove c c' t
  | calm : c'.standing? t = c.standing? t → c'.turn = c.turn → TaskMove c c' t

variable {c c' : Connection} {t u : Task} {m : Move} {n : CallId} {events : List Event}
  {s s' : Standing} {parked : Bool} {e : Ending} {next : Option Ending} {turn turn' : Turn Task}

theorem awaitsTurn_of_standing? (h : c.standing? t = some (s, parked)) :
    c.awaitsTurn t = s.awaitsTurn := by
  cases t with
  | reader =>
    cases h
    simp only [awaitsTurn]
    cases hp : c.reader.point with
    | ending e => cases e <;> rfl
    | _ => rfl
  | heartbeat =>
    cases h
    simp only [awaitsTurn]
    cases hp : c.heartbeat.point with
    | ending e => cases e <;> rfl
    | _ => rfl
  | send n =>
    obtain ⟨thread, hthread, heq⟩ := Option.map_eq_some_iff.mp h
    cases heq
    simp only [awaitsTurn, sendPoint?, hthread, Option.map_some]
    cases thread.point <;> rfl
  | close n =>
    obtain ⟨thread, hthread, heq⟩ := Option.map_eq_some_iff.mp h
    cases heq
    simp only [awaitsTurn, closePoint?, hthread, Option.map_some]
    cases hp : thread.point with
    | ending e => cases e <;> rfl
    | _ => rfl

theorem mayPark_of_waits (hwaits : c.waits t = true) (h : c.standing? t = some (s, parked)) :
    s.mayPark = true := by
  have hending : ∀ e, c.endingWaits t e = true → mayRestEnding e = true := by
    intro e he
    cases e <;> first | rfl | cases he
  cases t with
  | reader =>
    cases h
    cases hp : c.reader.point with
    | ending e =>
      simp only [waits, hp] at hwaits
      exact hending e hwaits
    | offering | forgetting | losing | redialing | opening | finished =>
      simp only [waits, hp] at hwaits
      cases hwaits
    | _ => rfl
  | heartbeat =>
    cases h
    cases hp : c.heartbeat.point with
    | ending e =>
      simp only [waits, hp] at hwaits
      exact hending e hwaits
    | checking | failing | finished =>
      simp only [waits, hp] at hwaits
      cases hwaits
    | _ => rfl
  | send n =>
    obtain ⟨thread, hthread, heq⟩ := Option.map_eq_some_iff.mp h
    cases heq
    simp only [waits, sendPoint?, hthread, Option.map_some] at hwaits
    cases hp : thread.point with
    | checking | returned => rw [hp] at hwaits; cases hwaits
    | _ => rfl
  | close n =>
    obtain ⟨thread, hthread, heq⟩ := Option.map_eq_some_iff.mp h
    cases heq
    simp only [waits, closePoint?, hthread, Option.map_some] at hwaits
    cases hp : thread.point with
    | ending e =>
      rw [hp] at hwaits
      exact hending e hwaits
    | joining tasks since =>
      cases tasks with
      | nil => rw [hp] at hwaits; cases hwaits
      | cons => rfl
    | taking | looking | cancelling | returned => rw [hp] at hwaits; cases hwaits

/-! ### What steps do with the turn -/

theorem EndingStep.handover (h : EndingStep c t e c' next events)
    (hawaits : s.awaitsTurn = (e == .waiting)) (hholds : s.holdsTurn = holdsTurnEnding e)
    (hnext : s'.holdsTurn = (next.map holdsTurnEnding).getD false) :
    Handover c.turn c'.turn t s s' := by
  cases h with
  | pass hturn => exact .pass hturn hawaits rfl hnext
  | withdraw hturn => exact .take hturn hawaits rfl
  | shut => exact .leave hholds hawaits rfl hnext
  | _ => exact .keep rfl hawaits (hnext.trans hholds.symm)

theorem ReaderStep.handover (h : ReaderStep c c' events) :
    Handover c.turn c'.turn .reader (.reader c.reader.point) (.reader c'.reader.point) := by
  cases h with
  | read f hp => rw [hp]; cases f <;> exact .keep rfl rfl rfl
  | offer hp =>
    rw [hp, point_readerAt]
    refine .keep rfl rfl ?_
    unfold afterOffer
    split <;> rfl
  | skip hp hturn | pass hp hturn | place hp hturn => rw [hp]; exact .pass hturn rfl rfl rfl
  | answer hp hturn | retire hp hturn => rw [hp]; exact .take hturn rfl rfl
  | pong _ hp | discard hp => rw [hp]; exact .leave rfl rfl rfl rfl
  | @ending e d next events hp hending =>
    rw [hp, point_readerAt]
    refine hending.handover ?_ rfl ?_
    · cases e <;> rfl
    · cases next <;> rfl
  | stop hp | wake hp | fail hp | finish hp | forget hp | lose hp | loseForGood hp
  | stopResting hp | rest hp | stopRedialing hp | redial hp | abandon hp | dialed hp
  | dialFailed hp | reopen hp =>
    rw [hp]
    exact .keep rfl rfl rfl

theorem HeartbeatStep.handover (h : HeartbeatStep c c' events) :
    Handover c.turn c'.turn .heartbeat (.heartbeat c.heartbeat.point)
      (.heartbeat c'.heartbeat.point) := by
  cases h with
  | miss hp hturn => rw [hp]; exact .pass hturn rfl rfl rfl
  | ping hp hturn => rw [hp]; exact .take hturn rfl rfl
  | pinged hp | pingFailed hp => rw [hp]; exact .leave rfl rfl rfl rfl
  | @ending e d next events hp hending =>
    rw [hp]
    refine hending.handover ?_ rfl ?_
    · cases e <;> rfl
    · cases next <;> rfl
  | stop hp | tick hp | ready hp | skip hp | wake hp | giveUp hp =>
    rw [hp]
    exact .keep rfl rfl rfl

theorem standing?_of_sendPoint? {p : SendPoint} (h : c.sendPoint? n = some p) :
    ∃ parked, c.standing? (.send n) = some (.send p, parked) := by
  obtain ⟨thread, hthread, rfl⟩ := Option.map_eq_some_iff.mp h
  exact ⟨thread.parked, Option.map_eq_some_iff.mpr ⟨thread, hthread, rfl⟩⟩

theorem standing?_sendAt_of_sendPoint? {p₀ p : SendPoint} (h : c.sendPoint? n = some p₀) :
    (c.sendAt n p).standing? (.send n) = some (.send p, false) := by
  obtain ⟨thread, hthread, -⟩ := Option.map_eq_some_iff.mp h
  simp only [Connection.standing?, sendAt, List.getElem?_set_self', hthread]
  rfl

theorem TaskMove.sendAt {d : Connection} {p₀ p : SendPoint} (h : c.sendPoint? n = some p₀)
    (hd : d.sends = c.sends) (hturn : Handover c.turn d.turn (.send n) (.send p₀) (.send p)) :
    TaskMove c (d.sendAt n p) (.send n) := by
  obtain ⟨parked, hstanding⟩ := standing?_of_sendPoint? h
  have hpoint : d.sendPoint? n = some p₀ := by rw [sendPoint?, hd]; exact h
  exact .step hstanding (standing?_sendAt_of_sendPoint? hpoint) hturn

theorem TaskMove.closeAt {d : Connection} {p₀ p : ClosePoint} (h : c.closePoint? n = some p₀)
    (hd : d.closes = c.closes) (hturn : Handover c.turn d.turn (.close n) (.close p₀) (.close p)) :
    TaskMove c (d.closeAt n p) (.close n) := by
  obtain ⟨parked, hstanding⟩ := standing?_of_closePoint? h
  have hpoint : d.closePoint? n = some p₀ := by rw [closePoint?, hd]; exact h
  exact .step hstanding (standing?_closeAt_of_closePoint? hpoint) hturn

theorem SendStep.taskMove (h : SendStep c n c' events) : TaskMove c c' (.send n) := by
  cases h with
  | accept hp | refuse hp => exact .sendAt hp rfl (.keep rfl rfl rfl)
  | miss hp hturn => exact .sendAt hp rfl (.pass hturn rfl rfl rfl)
  | write hp hturn => exact .sendAt hp rfl (.take hturn rfl rfl)
  | sent hp | fail hp => exact .sendAt hp rfl (.leave rfl rfl rfl rfl)

theorem CloseStep.taskMove (h : CloseStep c n c' events) : TaskMove c c' (.close n) := by
  cases h with
  | @abort t _ _ hp => refine .closeAt hp ?_ (.keep ?_ rfl rfl) <;> cases t <;> rfl
  | @ending e e' d events hp hending =>
    have hturn : Handover c.turn d.turn (.close n) (.close (.ending e)) (.close (.ending e')) := by
      refine hending.handover ?_ rfl rfl
      cases e <;> rfl
    obtain ⟨_, _, _, _, _, rfl⟩ := hending.frame
    exact .closeAt hp rfl hturn
  | @ended e d events hp hending =>
    have hturn : Handover c.turn d.turn (.close n) (.close (.ending e)) (.close .returned) := by
      refine hending.handover ?_ rfl rfl
      cases e <;> rfl
    obtain ⟨_, _, _, _, _, rfl⟩ := hending.frame
    exact .closeAt hp rfl hturn
  | take hp | leave hp | begin hp | cancel hp | joined hp | join hp =>
    exact .closeAt hp rfl (.keep rfl rfl rfl)

theorem ReaderStep.taskMove (h : ReaderStep c c' events) : TaskMove c c' .reader := by
  have hrunning : c'.reader.parked = false := by
    cases h with
    | read f => cases f <;> rfl
    | _ => rfl
  have hstanding : c'.standing? .reader = some (.reader c'.reader.point, false) := by
    rw [← hrunning]
    rfl
  exact .step rfl hstanding h.handover

theorem HeartbeatStep.taskMove (h : HeartbeatStep c c' events) : TaskMove c c' .heartbeat := by
  have hrunning : c'.heartbeat.parked = false := by cases h <;> rfl
  have hstanding : c'.standing? .heartbeat = some (.heartbeat c'.heartbeat.point, false) := by
    rw [← hrunning]
    rfl
  exact .step rfl hstanding h.handover

theorem exists_standing?_of_waits (h : c.waits t = true) :
    ∃ s parked, c.standing? t = some (s, parked) := by
  cases t with
  | reader | heartbeat => exact ⟨_, _, rfl⟩
  | send n =>
    cases hp : c.sendPoint? n with
    | none => rw [waits, hp] at h; cases h
    | some p =>
      obtain ⟨parked, hs⟩ := standing?_of_sendPoint? hp
      exact ⟨_, parked, hs⟩
  | close n =>
    cases hp : c.closePoint? n with
    | none => rw [waits, hp] at h; cases h
    | some p =>
      obtain ⟨parked, hs⟩ := standing?_of_closePoint? hp
      exact ⟨_, parked, hs⟩

/-- A move concerns one task. All others wait meanwhile, and stay where they are. -/
structure Concerns (c c' : Connection) (t : Task) : Prop where
  others : ∀ u, u ≠ t → c.isQuiet u = true
  frame : ∀ u, u ≠ t → c'.standing? u = c.standing? u
  move : TaskMove c c' t

/-- The task that a move concerns; a move that concerns none leaves the reader alone. -/
def concerned (c : Connection) : Move → Task
  | .step t _ | .reap t => t
  | .send _ => .send c.sends.length
  | .close => .close c.closes.length
  | _ => .reader

theorem Concerns.calm (hsettled : c.isSettled = true)
    (hframe : ∀ u, c'.standing? u = c.standing? u) (hturn : c'.turn = c.turn) :
    Concerns c c' .reader :=
  ⟨fun _ _ => quiet_of_isSettled hsettled, fun u _ => hframe u, .calm (hframe .reader) hturn⟩

theorem Transition.concerns (hstep : Transition c m c' events)
    (hadmits : c.admits .await m = true) : Concerns c c' (c.concerned m) := by
  cases hstep with
  | @suspend t hwaits =>
    refine ⟨fun u hu => quiet_of_admits_step hadmits hu, fun u hu => ?_, ?_⟩
    · exact (standing?_park hu).trans (by cases u <;> rfl)
    · obtain ⟨s, parked, hs⟩ := exists_standing?_of_waits hwaits
      refine .rest hs ?_ (mayPark_of_waits hwaits hs) ?_
      · have hsame : ({ c with turn := if c.awaitsTurn t then c.turn.join t else c.turn }).standing?
            t = c.standing? t := by cases t <;> rfl
        rw [concerned, standing?_park_self, hsame, hs]
        rfl
      · rw [← awaitsTurn_of_standing? hs]
        cases t <;> rfl
  | reader hstep =>
    exact ⟨fun u hu => quiet_of_admits_step hadmits hu, fun u hu => hstep.standing? hu,
      hstep.taskMove⟩
  | heartbeat hstep =>
    exact ⟨fun u hu => quiet_of_admits_step hadmits hu, fun u hu => hstep.standing? hu,
      hstep.taskMove⟩
  | sending hstep =>
    exact ⟨fun u hu => quiet_of_admits_step hadmits hu, fun u hu => hstep.standing? hu,
      hstep.taskMove⟩
  | closing hstep =>
    exact ⟨fun u hu => quiet_of_admits_step hadmits hu, fun u hu => hstep.standing? hu,
      hstep.taskMove⟩
  | reapReader _ hparked =>
    refine ⟨fun _ _ => quiet_of_isSettled hadmits, fun u hu => ?_,
      .reap (s := .reader c.reader.point) ?_ rfl rfl rfl⟩
    · cases u <;> first | rfl | exact absurd rfl hu
    · rw [← hparked]; rfl
  | reapHeartbeat _ hparked =>
    refine ⟨fun _ _ => quiet_of_isSettled hadmits, fun u hu => ?_,
      .reap (s := .heartbeat c.heartbeat.point) ?_ rfl rfl rfl⟩
    · cases u <;> first | rfl | exact absurd rfl hu
    · rw [← hparked]; rfl
  | send message =>
    refine ⟨fun _ _ => quiet_of_isSettled hadmits, fun u hu => standing?_start_send hu,
      .start (s := .send (.checking message)) ?_ ?_ rfl rfl⟩
    · simp [Connection.standing?, concerned]
    · simp [Connection.standing?, concerned]
  | close =>
    refine ⟨fun _ _ => quiet_of_isSettled hadmits, fun u hu => standing?_start_close hu,
      .start (s := .close .taking) ?_ ?_ rfl rfl⟩
    · simp [Connection.standing?, concerned]
    · simp [Connection.standing?, concerned]
  | dropHandle =>
    obtain ⟨_, _, heq⟩ := abort_frame c.tasks { c with cancelled := true, tasks := [] }
    rw [heq]
    exact .calm hadmits (fun u => by cases u <;> rfl) rfl
  | subscribe | refuse | unsubscribe | receive | dropReceiver | elapse =>
    exact .calm hadmits (fun u => by cases u <;> rfl) rfl

/-! ### Whose turn it is -/

/-- Tasks are parked where they may be; those that wait for the turn stand in its queue, and one
that writes holds it. -/
structure InTurn (c : Connection) : Prop where
  parks : ∀ t s, c.standing? t = some (s, true) → s.mayPark = true
  nodup : c.turn.queue.Nodup
  queued : ∀ t ∈ c.turn.queue, ∃ s, c.standing? t = some (s, true) ∧ s.awaitsTurn = true
  waiting : ∀ t s, c.standing? t = some (s, true) → s.awaitsTurn = true → t ∈ c.turn.queue
  holding : ∀ t s parked, c.standing? t = some (s, parked) → s.holdsTurn = true →
    c.turn.holder = some t

theorem Standing.holdsTurn_of_isFinished (h : s.isFinished = true) : s.holdsTurn = false := by
  unfold isFinished at h
  split at h <;> first | rfl | cases h

theorem Standing.isFinished_of_awaitsTurn (h : s.awaitsTurn = true) : s.isFinished = false := by
  unfold awaitsTurn at h
  split at h <;> first | rfl | cases h

theorem standing?_of_quiet (hquiet : c.isQuiet t = true) (hs : c.standing? t = some (s, parked))
    (hfinished : s.isFinished = false) : c.standing? t = some (s, true) := by
  rw [isQuiet_of_standing? hs, hfinished, Bool.false_or] at hquiet
  rw [hs, hquiet]

/-- A task that takes a step stands in the queue no more. -/
theorem Handover.queue_eq (h : Handover turn turn' t s s') (hnodup : turn.queue.Nodup)
    (hqueued : t ∈ turn.queue → s.awaitsTurn = true) : turn'.queue = turn.queue.erase t := by
  have hnot : s.awaitsTurn = false → turn.queue.erase t = turn.queue := fun hawaits =>
    List.erase_of_not_mem fun ht => by rw [hqueued ht] at hawaits; cases hawaits
  cases h with
  | keep hturn hawaits => rw [hturn, hnot hawaits]
  | take _ _ hturn => rw [hturn]; rfl
  | pass _ _ hturn =>
    rw [hturn]
    exact List.erase_of_not_mem hnodup.not_mem_erase
  | leave _ _ hturn => rw [hturn]; rfl

namespace InTurn

variable (h : InTurn c)
include h

theorem mayPark_of_quiet (hquiet : c.isQuiet t = true) (hs : c.standing? t = some (s, parked))
    (hfinished : s.isFinished = false) : s.mayPark = true :=
  h.parks t s (standing?_of_quiet hquiet hs hfinished)

theorem mem_queue_of_quiet (hquiet : c.isQuiet t = true) (hs : c.standing? t = some (s, parked))
    (hawaits : s.awaitsTurn = true) : t ∈ c.turn.queue :=
  h.waiting t s (standing?_of_quiet hquiet hs (Standing.isFinished_of_awaitsTurn hawaits)) hawaits

/-- A reader that waits has not just lost its socket. -/
theorem not_losing_of_quiet (hquiet : c.isQuiet .reader = true) (cause : Loss) :
    c.reader.point ≠ .losing cause := by
  intro hp
  cases h.mayPark_of_quiet hquiet (standing?_reader hp) rfl

theorem awaitsTurn_of_mem (hs : c.standing? t = some (s, parked)) (ht : t ∈ c.turn.queue) :
    s.awaitsTurn = true ∧ parked = true := by
  obtain ⟨s₁, hs₁, hawaits⟩ := h.queued t ht
  rw [hs] at hs₁
  cases hs₁
  exact ⟨hawaits, rfl⟩

/-- Where the turn and the others are as they were, but for a task that no more waits for it. -/
theorem of_queue (hframe : ∀ u, u ≠ t → c'.standing? u = c.standing? u)
    (hs : c'.standing? t = some (s', false)) (hqueue : c'.turn.queue = c.turn.queue.erase t)
    (hholding : ∀ u s parked, c'.standing? u = some (s, parked) → s.holdsTurn = true →
      c'.turn.holder = some u) : InTurn c' where
  parks := by
    intro u s₁ hs₁
    by_cases hu : u = t
    · subst hu
      rw [hs] at hs₁
      cases hs₁
    · exact h.parks u s₁ (hframe u hu ▸ hs₁)
  nodup := hqueue ▸ h.nodup.erase t
  queued := by
    intro u hu
    rw [hqueue] at hu
    have hne : u ≠ t := fun heq => h.nodup.not_mem_erase (heq ▸ hu)
    obtain ⟨s₁, hs₁, hawaits⟩ := h.queued u (List.mem_of_mem_erase hu)
    exact ⟨s₁, (hframe u hne).trans hs₁, hawaits⟩
  waiting := by
    intro u s₁ hs₁ hawaits
    by_cases hu : u = t
    · subst hu
      rw [hs] at hs₁
      cases hs₁
    · rw [hqueue, List.mem_erase_of_ne hu]
      exact h.waiting u s₁ (hframe u hu ▸ hs₁) hawaits
  holding := hholding

/-- After a step of one task, whoever stands where the turn is held still holds it, and the task has
taken it if it comes to stand there. -/
theorem holder_of_handover (hframe : ∀ u, u ≠ t → c'.standing? u = c.standing? u)
    (hs : c.standing? t = some (s, parked)) (hs' : c'.standing? t = some (s', false))
    (hturn : Handover c.turn c'.turn t s s') {s₁ : Standing} {parked₁ : Bool}
    (hs₁ : c'.standing? u = some (s₁, parked₁)) (hholds : s₁.holdsTurn = true) :
    c'.turn.holder = some u := by
  by_cases hu : u = t
  · subst hu
    rw [hs'] at hs₁
    cases hs₁
    cases hturn with
    | keep hsame _ hheld => rw [hsame, h.holding u s parked hs (hheld ▸ hholds)]
    | take _ _ hsame => rw [hsame]; rfl
    | pass _ _ _ hnot | leave _ _ _ hnot => rw [hholds] at hnot; cases hnot
  · have hholder := h.holding u s₁ parked₁ (hframe u hu ▸ hs₁) hholds
    cases hturn with
    | keep hsame => rw [hsame, hholder]
    | take hmay | pass hmay =>
      rw [Turn.holder_of_mayTake hmay] at hholder
      cases hholder
    | leave hheld =>
      rw [h.holding t s parked hs hheld] at hholder
      exact absurd (Option.some.inj hholder).symm hu

/-- A task that comes to wait, for the turn or for something else, waits where it may. -/
theorem rest (hframe : ∀ u, u ≠ t → c'.standing? u = c.standing? u)
    (hs : c.standing? t = some (s, parked)) (hs' : c'.standing? t = some (s, true))
    (hpark : s.mayPark = true)
    (hturn : c'.turn = if s.awaitsTurn then c.turn.join t else c.turn) : InTurn c' where
  parks := by
    intro u s₁ hs₁
    by_cases hu : u = t
    · subst hu
      rw [hs'] at hs₁
      cases hs₁
      exact hpark
    · exact h.parks u s₁ (hframe u hu ▸ hs₁)
  nodup := by
    rw [hturn]
    split
    · exact Turn.nodup_join h.nodup
    · exact h.nodup
  queued := by
    intro u hu
    by_cases hut : u = t
    · subst hut
      refine ⟨s, hs', ?_⟩
      rw [hturn] at hu
      split at hu
      · next hawaits => exact hawaits
      · exact (h.awaitsTurn_of_mem hs hu).1
    · have hwas : u ∈ c.turn.queue := by
        rw [hturn] at hu
        split at hu
        · exact (Turn.mem_queue_join.mp hu).resolve_right hut
        · exact hu
      obtain ⟨s₁, hs₁, hawaits⟩ := h.queued u hwas
      exact ⟨s₁, (hframe u hut).trans hs₁, hawaits⟩
  waiting := by
    intro u s₁ hs₁ hawaits
    by_cases hu : u = t
    · subst hu
      rw [hs'] at hs₁
      cases hs₁
      rw [hturn, if_pos hawaits]
      exact Turn.mem_queue_join.mpr (.inr rfl)
    · have hwas := h.waiting u s₁ (hframe u hu ▸ hs₁) hawaits
      rw [hturn]
      split
      · exact Turn.mem_queue_join.mpr (.inl hwas)
      · exact hwas
  holding := by
    intro u s₁ parked₁ hs₁ hholds
    have hholder : c'.turn.holder = c.turn.holder := by
      rw [hturn]
      split
      · exact Turn.holder_join
      · rfl
    rw [hholder]
    by_cases hu : u = t
    · subst hu
      rw [hs'] at hs₁
      cases hs₁
      exact h.holding u s parked hs hholds
    · exact h.holding u s₁ parked₁ (hframe u hu ▸ hs₁) hholds

/-- An aborted task ends, and leaves the turn. -/
theorem reap (hframe : ∀ u, u ≠ t → c'.standing? u = c.standing? u)
    (hs' : c'.standing? t = some (s', false)) (hfinished : s'.isFinished = true)
    (hturn : c'.turn = c.turn.leave t) : InTurn c' := by
  refine h.of_queue hframe hs' (by rw [hturn]; rfl) fun u s₁ parked₁ hs₁ hholds => ?_
  by_cases hu : u = t
  · subst hu
    rw [hs'] at hs₁
    cases hs₁
    rw [Standing.holdsTurn_of_isFinished hfinished] at hholds
    cases hholds
  · have hholder := h.holding u s₁ parked₁ (hframe u hu ▸ hs₁) hholds
    rw [hturn, Turn.leave, hholder, if_neg]
    exact fun heq => hu (Option.some.inj heq)

/-- A call begins. -/
theorem start (hframe : ∀ u, u ≠ t → c'.standing? u = c.standing? u)
    (hnone : c.standing? t = none) (hs' : c'.standing? t = some (s', false))
    (hnot : s'.holdsTurn = false) (hturn : c'.turn = c.turn) : InTurn c' := by
  have hmem : t ∉ c.turn.queue := by
    intro ht
    obtain ⟨s₁, hs₁, -⟩ := h.queued t ht
    rw [hnone] at hs₁
    cases hs₁
  refine h.of_queue hframe hs' ?_ fun u s₁ parked₁ hs₁ hholds => ?_
  · rw [hturn, List.erase_of_not_mem hmem]
  · by_cases hu : u = t
    · subst hu
      rw [hs'] at hs₁
      cases hs₁
      rw [hnot] at hholds
      cases hholds
    · rw [hturn]
      exact h.holding u s₁ parked₁ (hframe u hu ▸ hs₁) hholds

theorem of_same (hsame : ∀ u, c'.standing? u = c.standing? u) (hturn : c'.turn = c.turn) :
    InTurn c' where
  parks u s hs := h.parks u s (hsame u ▸ hs)
  nodup := hturn ▸ h.nodup
  queued u hu := by rw [hsame]; exact h.queued u (hturn ▸ hu)
  waiting u s hs := by rw [hturn]; exact h.waiting u s (hsame u ▸ hs)
  holding u s parked hs := by rw [hturn]; exact h.holding u s parked (hsame u ▸ hs)

/-- Every admitted move leaves the turn in order. -/
theorem step (hmove : Concerns c c' t) : InTurn c' := by
  obtain ⟨-, hframe, hmove⟩ := hmove
  cases hmove with
  | step hs hs' hturn =>
    have hqueue := hturn.queue_eq h.nodup fun ht => (h.awaitsTurn_of_mem hs ht).1
    exact h.of_queue hframe hs' hqueue fun u s parked =>
      h.holder_of_handover hframe hs hs' hturn
  | rest hs hs' hpark hturn => exact h.rest hframe hs hs' hpark hturn
  | reap _ hs' hfinished hturn => exact h.reap hframe hs' hfinished hturn
  | start hnone hs' hnot hturn => exact h.start hframe hnone hs' hnot hturn
  | calm hsame hturn =>
    refine h.of_same (fun u => ?_) hturn
    by_cases hu : u = t
    · rw [hu, hsame]
    · exact hframe u hu

/-- While the reader waits for the turn, others may only leave their places ahead of it. -/
theorem mem_ahead (hmove : Concerns c c' t) (ht : t ≠ .reader)
    (hreader : .reader ∈ c.turn.queue) :
    (∀ u, u ∈ c'.turn.ahead .reader → u ∈ c.turn.ahead .reader) ∧
      ∀ u, u ≠ t → u ∈ c.turn.ahead .reader → u ∈ c'.turn.ahead .reader := by
  have herase : c'.turn.queue = c.turn.queue.erase t →
      (∀ u, u ∈ c'.turn.ahead .reader → u ∈ c.turn.ahead .reader) ∧
        ∀ u, u ≠ t → u ∈ c.turn.ahead .reader → u ∈ c'.turn.ahead .reader := by
    intro hqueue
    unfold Turn.ahead
    rw [hqueue]
    exact ⟨fun u => Turn.mem_takeWhile_erase ht, fun u hu => Turn.mem_takeWhile_erase_of_ne hu⟩
  have hsame : c'.turn.ahead .reader = c.turn.ahead .reader →
      (∀ u, u ∈ c'.turn.ahead .reader → u ∈ c.turn.ahead .reader) ∧
        ∀ u, u ≠ t → u ∈ c.turn.ahead .reader → u ∈ c'.turn.ahead .reader := by
    intro heq
    rw [heq]
    exact ⟨fun _ => id, fun _ _ => id⟩
  cases hmove.move with
  | step hs hs' hturn =>
    exact herase (hturn.queue_eq h.nodup fun ht => (h.awaitsTurn_of_mem hs ht).1)
  | rest hs hs' hpark hturn =>
    refine hsame ?_
    rw [hturn]
    split
    · exact Turn.ahead_join_of_mem hreader
    · rfl
  | reap hs hs' hfinished hturn => exact herase (by rw [hturn]; rfl)
  | start hnone hs hholds hturn => exact hsame (by rw [hturn])
  | calm _ hturn => exact hsame (by rw [hturn])

end InTurn

theorem inTurn_opened (address : String) (settings : StreamSettings) (now : Instant)
    (epoch : Int) : InTurn (opened address settings now epoch) := by
  have hstanding : ∀ t s parked,
      (opened address settings now epoch).standing? t = some (s, parked) →
      s.mayPark = true ∧ s.awaitsTurn = false ∧ s.holdsTurn = false := by
    intro t s parked hs
    cases t with
    | reader => cases hs; exact ⟨rfl, rfl, rfl⟩
    | heartbeat =>
      cases hs
      unfold opened
      cases settings.pingInterval? <;> exact ⟨rfl, rfl, rfl⟩
    | send | close => cases hs
  refine ⟨fun t s hs => (hstanding t s true hs).1, List.nodup_nil, fun t ht => ?_,
    fun t s hs hawaits => ?_, fun t s parked hs hholds => ?_⟩
  · cases ht
  · rw [(hstanding t s true hs).2.1] at hawaits
    cases hawaits
  · rw [(hstanding t s parked hs).2.2] at hholds
    cases hholds

/-- In every run, whoever waits for the turn stands in its queue, and whoever writes holds it. -/
theorem Reaches.inTurn {d : Connection} {past history : List Event}
    (h : Reaches .await d past c history) (hd : InTurn d) : InTurn c := by
  induction h with
  | refl => exact hd
  | move _ hadmits hnext ih => exact ih.step ((Transition.of_next? hnext).concerns hadmits)

end Connection

end Uplink.Stream
